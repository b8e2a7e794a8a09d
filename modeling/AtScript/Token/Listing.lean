import AtScript.Text.Display
import AtScript.Text.Lines
import AtScript.Token.Basic

/-! # Listings of tokens -/

namespace AtScript

/-- A span as dumps show it. -/
def Span.dump (span : Span) : String :=
  "Span \x7b start: " ++ toString span.start ++ ", length: " ++ toString span.length ++ " \x7d"

/-- A kind of token as dumps show it. -/
def TokenKind.dump : TokenKind → String
  | .call => "FunctionOpen"
  | .word => "Word"
  | .quoted => "Quoted"
  | .comma => "Comma"
  | .close => "CloseParen"

namespace Token

/-- All that a token holds, on one line. -/
def dump (token : Token) : String :=
  "Token \x7b kind: " ++ token.kind.dump ++ ", text: " ++ Text.display token.text ++ ", span: "
    ++ token.span.dump ++ " \x7d"

/-- A token with the number of its line in a text whose lines end at `lineEnds`. A quoted literal is
shown with its value. -/
def listing (lineEnds : List Nat) (token : Token) : String :=
  let line := "[line " ++ toString (Text.lineNumber lineEnds token.span.start) ++ "] "
  match token.kind with
  | .quoted =>
    line ++ token.kind.label ++ " " ++ token.text ++ " " ++ Value.unquote token.text
  | .comma => line ++ token.kind.label ++ " ,"
  | .close => line ++ token.kind.label ++ " )"
  | _ => line ++ token.kind.label ++ " " ++ token.text

/-- Tokens with the numbers of their lines in a text. -/
def listings (text : String) (tokens : List Token) : List String :=
  let ends := Text.lineEnds text
  tokens.map (listing ends)

end Token

end AtScript
