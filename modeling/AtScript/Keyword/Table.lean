import AtScript.Text.IgnoreCase
import AtScript.Keyword.Basic
import AtScript.Token.Basic

/-! # The keyword table

One entry per keyword. Everything that recognises a keyword, counts its arguments or lists it reads
this table.
-/

namespace AtScript

/-- What the table says about a keyword. -/
structure KeywordEntry where
  /-- The name, in lower case, without `@` and parenthesis. -/
  name : String
  form : Form
  arity : Arity
  /-- The parameter list that the reference shows. -/
  params : String
  group : Group
deriving Repr, DecidableEq

namespace KeywordEntry

/-- The entry of a keyword that is called. -/
def call (name : String) (arity : Arity) (params : String) (group : Group) : KeywordEntry :=
  ⟨name, .call, arity, params, group⟩

/-- The entry of a keyword that is a bare word. -/
def bare (name : String) (group : Group) : KeywordEntry :=
  ⟨name, .bare, .exactly 0, "", group⟩

/-- The entry of a keyword without arguments that is spelled either way. -/
def either (name : String) (group : Group) : KeywordEntry :=
  ⟨name, .either, .exactly 0, "", group⟩

end KeywordEntry

namespace Keyword

open KeywordEntry

/-- The table entry of a keyword. -/
def entry : Keyword → KeywordEntry
  | .comment => call "comment" (.exactly 1) "x" .statement
  | .exec => call "exec" (.exactly 1) "script" .statement
  | .script => call "script" (.exactly 1) "key" .statement
  | .set => call "set" (.exactly 2) "key,x" .statement
  | .swap => call "swap" (.exactly 2) "key1,key2" .statement
  | .update .add => call "addto" (.exactly 2) "key,x" .numeric
  | .update .div => call "divto" (.exactly 2) "key,x" .numeric
  | .update .mod => call "modto" (.exactly 2) "key,x" .numeric
  | .update .mul => call "multo" (.exactly 2) "key,x" .numeric
  | .update .sub => call "subto" (.exactly 2) "key,x" .numeric
  | .newline => either "nl" .output
  | .message => call "msg" (.exactly 1) "key" .output
  | .write => call "write" (.atLeast 1) "x,..." .output
  | .abs => call "abs" (.exactly 1) "x" .function
  | .arithmetic .add => call "add" (.exactly 2) "x,y" .function
  | .concat => call "concat" (.atLeast 1) "x,y,..." .function
  | .arithmetic .div => call "div" (.exactly 2) "x,y" .function
  | .format => call "format" (.atLeast 1) "x,y0,y1,..." .function
  | .get => call "get" (.exactly 1) "key" .function
  | .getValue => call "getvalue" (.exactly 1) "key" .function
  | .lower => call "lower" (.exactly 1) "x" .function
  | .arithmetic .mod => call "mod" (.exactly 2) "x,y" .function
  | .arithmetic .mul => call "mul" (.exactly 2) "x,y" .function
  | .replace => call "replace" (.exactly 3) "x,y,z" .function
  | .random => call "rnd" (.exactly 1) "x" .function
  | .arithmetic .sub => call "sub" (.exactly 2) "x,y" .function
  | .substring => call "substring" (.between 2 3) "value,start[,len]" .function
  | .trim => call "trim" (.exactly 1) "x" .function
  | .upper => call "upper" (.exactly 1) "x" .function
  | .branch .ifWord => bare "if" .branching
  | .branch .thenWord => bare "then" .branching
  | .branch .elseIf => bare "elseif" .branching
  | .branch .elseWord => bare "else" .branching
  | .branch .endIf => bare "endif" .branching
  | .compare .eq => call "eq" (.exactly 2) "x,y" .condition
  | .ask .isFalse => call "false" (.exactly 1) "x" .condition
  | .askStored .isFalse => call "falsedata" (.exactly 1) "key" .condition
  | .compare .ge => call "ge" (.exactly 2) "x,y" .condition
  | .compare .gt => call "gt" (.exactly 2) "x,y" .condition
  | .ask .isBool => call "isbool" (.exactly 1) "x" .condition
  | .askStored .isBool => call "isbooldata" (.exactly 1) "key" .condition
  | .ask .isNull => call "isnull" (.exactly 1) "x" .condition
  | .askStored .isNull => call "isnulldata" (.exactly 1) "key" .condition
  | .ask .isScript => call "isscript" (.exactly 1) "x" .condition
  | .askStored .isScript => call "isscriptdata" (.exactly 1) "key" .condition
  | .compare .le => call "le" (.exactly 2) "x,y" .condition
  | .compare .lt => call "lt" (.exactly 2) "x,y" .condition
  | .compare .ne => call "ne" (.exactly 2) "x,y" .condition
  | .chance => call "rand" (.exactly 1) "x" .condition
  | .ask .isTrue => call "true" (.exactly 1) "x" .condition
  | .askStored .isTrue => call "truedata" (.exactly 1) "key" .condition
  | .connector .and => bare "and" .connector
  | .connector .or => bare "or" .connector
  | .connector .not => bare "not" .connector
  | .loop .range => call "for" (.exactly 3) "token,start,end" .rangeLoop
  | .endLoop .range => bare "endfor" .rangeLoop
  | .loop .keys => call "foreachkey" (.between 2 3) "token,prefix[,suffix]" .keyLoop
  | .endLoop .keys => bare "endforeachkey" .keyLoop
  | .loop .items => call "foreachlist" (.exactly 2) "token,name" .itemLoop
  | .endLoop .items => bare "endforeachlist" .itemLoop
  | .list .add => call "addlist" (.exactly 2) "name,value" .list
  | .list .clear => call "clearlist" (.exactly 1) "name" .list
  | .list .get => call "getlist" (.exactly 2) "name,pos" .list
  | .list .insertAt => call "insertatlist" (.exactly 3) "name,pos,value" .list
  | .list .length => call "listlength" (.exactly 1) "name" .list
  | .list .removeAt => call "removeatlist" (.exactly 2) "name,pos" .list
  | .list .set => call "setlist" (.exactly 3) "name,pos,value" .list
  | .array .clear => call "cleararray" (.exactly 1) "name" .array
  | .array .get => call "getarray" (.exactly 3) "name,y,x" .array
  | .array .set => call "setarray" (.exactly 4) "name,y,x,value" .array
  | .receive => either "getinchannel" .channel
  | .send => call "setoutchannel" (.exactly 1) "value" .channel

/-- Every keyword, in the order of the reference. -/
def all : List Keyword :=
  [.comment, .exec, .script, .set, .swap, .update .add, .update .div, .update .mod, .update .mul,
   .update .sub, .newline, .message, .write, .abs, .arithmetic .add, .concat, .arithmetic .div,
   .format, .get, .getValue, .lower, .arithmetic .mod, .arithmetic .mul, .replace, .random,
   .arithmetic .sub, .substring, .trim, .upper, .branch .ifWord, .branch .thenWord, .branch .elseIf,
   .branch .elseWord, .branch .endIf, .compare .eq, .ask .isFalse, .askStored .isFalse,
   .compare .ge, .compare .gt, .ask .isBool, .askStored .isBool, .ask .isNull, .askStored .isNull,
   .ask .isScript, .askStored .isScript, .compare .le, .compare .lt, .compare .ne, .chance,
   .ask .isTrue, .askStored .isTrue, .connector .and, .connector .or, .connector .not, .loop .range,
   .endLoop .range, .loop .keys, .endLoop .keys, .loop .items, .endLoop .items, .list .add,
   .list .clear, .list .get, .list .insertAt, .list .length, .list .removeAt, .list .set,
   .array .clear, .array .get, .array .set, .receive, .send]

/-- The name of a keyword, in lower case, without `@` and parenthesis. -/
def name (keyword : Keyword) : String :=
  keyword.entry.name

/-- How many arguments a keyword takes. -/
def arity (keyword : Keyword) : Arity :=
  keyword.entry.arity

/-- The keyword as a script spells it, as in `@for(` or `@endif`. -/
def spelling (keyword : Keyword) : String :=
  match keyword.entry.form with
  | .call => "@" ++ keyword.name ++ "("
  | .bare | .either => "@" ++ keyword.name

/-- The keywords that can be called, by the text of such a call. -/
def byCall : List (String × Keyword) :=
  (all.filter (·.entry.form.allows true)).map fun keyword => ("@" ++ keyword.name ++ "(", keyword)

/-- The keywords that can be a bare word, by that word. -/
def byWord : List (String × Keyword) :=
  (all.filter (·.entry.form.allows false)).map fun keyword => ("@" ++ keyword.name, keyword)

/-- The keyword that a token spells, whatever its letter case. -/
def ofToken? (token : Token) : Option Keyword :=
  if token.hasAt then
    match token.kind with
    | .call => byCall.lookup (Text.foldCase token.text)
    | .word => byWord.lookup (Text.foldCase token.text)
    | _ => none
  else
    none

/-- The keyword that closes a loop. -/
def loopEnd? : Keyword → Option Keyword
  | .loop family => some (.endLoop family)
  | _ => none

/-- Whether a keyword only shapes the flow of control and never gives a value. -/
def isStructural : Keyword → Bool
  | .branch _ | .connector _ | .endLoop _ => true
  | _ => false

/-- Whether a keyword belongs to a branch or a loop, its opening included. -/
def isControl : Keyword → Bool
  | .loop _ => true
  | keyword => keyword.isStructural

end Keyword

end AtScript
