import AtScript.Text.Blank
import AtScript.Text.CaseMap
import AtScript.Token.Basic

/-! # Reading a script into tokens

White space separates tokens and is dropped. A comma, a closing parenthesis and an `@` end the word
before them, an opening parenthesis belongs to the word that it ends, and a quoted literal runs to
its closing quote or to the end of the script. The text of a command is put in lower case. Every
script can be read, one character after the other.
-/

namespace AtScript.Token

/-- A token whose end has not been met: where it starts and its characters so far. -/
inductive Pending where
  | nothing
  | word (start : Nat) (text : String)
  | quote (start : Nat) (text : String) (escaped : Bool)
deriving Repr, DecidableEq

/-- The token of a complete word. -/
def ofWord (start : Nat) (text : String) : Token :=
  let span : Span := ⟨start, text.utf8ByteSize⟩
  if text.front? == some '@' then
    ⟨if text.back? == some '(' then .call else .word, Text.lower text, span⟩
  else
    ⟨.word, text, span⟩

/-- The token of a complete quoted literal. -/
def ofQuote (start : Nat) (text : String) : Token :=
  ⟨.quoted, text, ⟨start, text.utf8ByteSize⟩⟩

/-- The tokens that a pending token becomes when it ends. -/
def Pending.finish : Pending → List Token
  | .nothing => []
  | .word start text => [ofWord start text]
  | .quote start text _ => [ofQuote start text]

/-- A script that has been read in part. -/
structure Scanner where
  /-- The byte offset of the next character. -/
  offset : Nat := 0
  pending : Pending := .nothing
  /-- The complete tokens, the last one first. -/
  done : List Token := []
deriving Repr, DecidableEq

namespace Scanner

/-- Reads a character between two tokens. -/
def begin (offset : Nat) (done : List Token) (c : Char) : Scanner :=
  let next := offset + c.utf8Size
  if c = ',' then ⟨next, .nothing, ⟨.comma, ",", ⟨offset, 1⟩⟩ :: done⟩
  else if c = ')' then ⟨next, .nothing, ⟨.close, ")", ⟨offset, 1⟩⟩ :: done⟩
  else if c = '"' then ⟨next, .quote offset "\"" false, done⟩
  else if Text.isBlankChar c then ⟨next, .nothing, done⟩
  else ⟨next, .word offset c.toString, done⟩

def step (scanner : Scanner) (c : Char) : Scanner :=
  match scanner with
  | ⟨offset, .nothing, done⟩ => begin offset done c
  | ⟨offset, .word start text, done⟩ =>
    if c = '(' then
      ⟨offset + c.utf8Size, .nothing, ofWord start (text.push c) :: done⟩
    else if c = ',' ∨ c = ')' ∨ c = '@' ∨ Text.isBlankChar c then
      begin offset (ofWord start text :: done) c
    else
      ⟨offset + c.utf8Size, .word start (text.push c), done⟩
  | ⟨offset, .quote start text true, done⟩ =>
    ⟨offset + c.utf8Size, .quote start (text.push c) false, done⟩
  | ⟨offset, .quote start text false, done⟩ =>
    if c = '"' then ⟨offset + c.utf8Size, .nothing, ofQuote start (text.push c) :: done⟩
    else ⟨offset + c.utf8Size, .quote start (text.push c) (c = '\\'), done⟩

/-- All tokens, when no further character follows. -/
def tokens (scanner : Scanner) : List Token :=
  (scanner.pending.finish ++ scanner.done).reverse

end Scanner

def scan (script : String) : List Token :=
  (script.toList.foldl Scanner.step {}).tokens

end AtScript.Token
