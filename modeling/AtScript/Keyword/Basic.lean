/-! # Keywords

The commands that the language itself provides, sorted by what they do. Keywords that differ only in
the operation they apply share one constructor.
-/

namespace AtScript

/-- Operations on two integers. -/
inductive Arithmetic where
  | add | sub | mul | div | mod
deriving Repr, DecidableEq

/-- Comparisons of two integers. -/
inductive Comparison where
  | eq | ne | lt | le | gt | ge
deriving Repr, DecidableEq

/-- Questions about one value. -/
inductive Question where
  | isTrue | isFalse | isNull | isScript | isBool
deriving Repr, DecidableEq

/-- The keywords that shape a chain of branches. -/
inductive Branch where
  | ifWord | thenWord | elseIf | elseWord | endIf
deriving Repr, DecidableEq

/-- The words that join and negate the parts of a condition. -/
inductive Connector where
  | and | or | not
deriving Repr, DecidableEq

/-- The families of loop, by what they run over: a range of integers, the keys of the store, or the
items of a packed list. -/
inductive LoopFamily where
  | range | keys | items
deriving Repr, DecidableEq

/-- Commands on packed lists. -/
inductive ListCommand where
  | add | clear | get | insertAt | length | removeAt | set
deriving Repr, DecidableEq

/-- Commands on arrays of cells. -/
inductive ArrayCommand where
  | clear | get | set
deriving Repr, DecidableEq

/-- The keywords of the language. -/
inductive Keyword where
  /-- Does nothing. -/
  | comment
  /-- Runs its argument as a script. -/
  | exec
  /-- Runs the stored script of a key. -/
  | script
  | set
  | swap
  /-- Changes a stored integer by an operation. -/
  | update (operation : Arithmetic)
  /-- Writes a line break. -/
  | newline
  /-- Writes a stored value and a line break. -/
  | message
  | write
  | abs
  | arithmetic (operation : Arithmetic)
  | concat
  | format
  | get
  /-- Writes a stored value, or what it writes when it is a script. -/
  | getValue
  | lower
  | replace
  /-- Writes a random integer. -/
  | random
  | substring
  | trim
  | upper
  | branch (part : Branch)
  | compare (comparison : Comparison)
  /-- Asks about its argument. -/
  | ask (question : Question)
  /-- Asks about a stored value. -/
  | askStored (question : Question)
  /-- Is true with a given chance in percent. -/
  | chance
  | connector (word : Connector)
  /-- Opens a loop. -/
  | loop (family : LoopFamily)
  /-- Closes a loop. -/
  | endLoop (family : LoopFamily)
  | list (command : ListCommand)
  | array (command : ArrayCommand)
  /-- Takes the next text from the host. -/
  | receive
  /-- Queues a text for the host. -/
  | send
deriving Repr, DecidableEq

/-- How a keyword is spelled. -/
inductive Form where
  /-- As a bare word, `@name`. -/
  | bare
  /-- As a call, `@name(...)`. -/
  | call
  /-- Either way. -/
  | either
deriving Repr, DecidableEq

/-- Whether a form allows a token that is a call, or one that is not. -/
def Form.allows : Form → Bool → Bool
  | .bare, isCall => !isCall
  | .call, isCall => isCall
  | .either, _ => true

/-- How many arguments a call takes. -/
structure Arity where
  min : Nat
  /-- The largest number, if there is one. -/
  max : Option Nat
deriving Repr, DecidableEq

namespace Arity

/-- Exactly `count` arguments. -/
def exactly (count : Nat) : Arity := ⟨count, some count⟩

/-- At least `count` arguments. -/
def atLeast (count : Nat) : Arity := ⟨count, none⟩

/-- Between `least` and `most` arguments. -/
def between (least most : Nat) : Arity := ⟨least, some most⟩

/-- Whether a call may have `count` arguments. -/
def accepts (arity : Arity) (count : Nat) : Bool :=
  arity.min ≤ count && arity.max.all (count ≤ ·)

/-- The arity as it is shown, as in `2`, `2-3` or `1+`. -/
def text (arity : Arity) : String :=
  match arity.max with
  | some most => if most = arity.min then toString most else s!"{arity.min}-{most}"
  | none => s!"{arity.min}+"

end Arity

/-- The sections of the keyword reference. -/
inductive Group where
  | statement | numeric | output | function | branching | condition | connector
  | rangeLoop | keyLoop | itemLoop | list | array | channel
deriving Repr, DecidableEq

/-- The heading of a section. -/
def Group.title : Group → String
  | .statement => "Statements"
  | .numeric => "Numeric statements"
  | .output => "Output statements"
  | .function => "Functions"
  | .branching => "If tokens"
  | .condition => "If conditions"
  | .connector => "Condition connectors/modifiers"
  | .rangeLoop => "For loop"
  | .keyLoop => "ForEachKey loop"
  | .itemLoop => "ForEachList loop"
  | .list => "List statements/functions"
  | .array => "Array statements/functions"
  | .channel => "In/Out Channel commands"

end AtScript
