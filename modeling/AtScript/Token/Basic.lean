import AtScript.Value.Literal

/-! # Tokens

A script is a sequence of tokens: calls, words, quoted literals, commas and closing parentheses. A
call or a word that starts with `@` is a command; every other word, and every quoted literal, stands
for itself.
-/

namespace AtScript

/-- A range of bytes of a script. -/
structure Span where
  /-- The offset of the first byte. -/
  start : Nat
  /-- The number of bytes. -/
  length : Nat
deriving Repr, DecidableEq, Inhabited

inductive TokenKind where
  /-- A command that opens a list of arguments, as `@name(`. -/
  | call
  /-- A bare command, as `@name`, or an unquoted literal. -/
  | word
  /-- A quoted literal, with its quotes and escapes. -/
  | quoted
  | comma
  | close
deriving Repr, DecidableEq, Inhabited

/-- The name under which listings show a kind. -/
def TokenKind.label : TokenKind → String
  | .call => "FUNCTION"
  | .word => "WORD"
  | .quoted => "QUOTED"
  | .comma => "COMMA"
  | .close => "CLOSE_PAREN"

structure Token where
  kind : TokenKind
  text : String
  /-- Where the token stands in the script it was read from. -/
  span : Span
deriving Repr, DecidableEq, Inhabited

namespace Token

/-- Whether the text of a token starts with `@`. -/
def hasAt (token : Token) : Bool :=
  token.text.front? == some '@'

def isCommand (token : Token) : Bool :=
  match token.kind with
  | .call | .word => token.hasAt
  | _ => false

/-- Whether a token carries a value of its own. -/
def isLiteral (token : Token) : Bool :=
  match token.kind with
  | .quoted => true
  | .word => !token.hasAt
  | _ => false

/-- The value that a literal carries. -/
def literalValue (token : Token) : String :=
  match token.kind with
  | .quoted => Value.unquote token.text
  | _ => token.text

/-- Whether a token opens a parenthesis, which a word such as `abc(` does as well. -/
def opensGroup (token : Token) : Bool :=
  match token.kind with
  | .call | .word => token.text.back? == some '('
  | _ => false

end Token

end AtScript
