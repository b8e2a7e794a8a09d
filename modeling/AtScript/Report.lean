import AtScript.Check.Finding
import AtScript.Engine.Error
import AtScript.Text.Blank

/-! # Reports

A report points at a place in a named script: a header, the place, a label for the token there, and
notes on the scripts around it.
-/

namespace AtScript

/-- The contents of a report. -/
structure Report where
  header : String
  /-- The script, the line and the column. -/
  location : Option String
  /-- What is wrong at that place. -/
  label : Option String
  notes : List String
deriving Repr, DecidableEq

namespace Report

/-- The characters that end a line in reports. -/
def isLineEnd (c : Char) : Bool :=
  ['\n', '\r', '\x0b', '\x0c', '\u0085', '\u2028', '\u2029'].contains c

/-- The line and column, both from one on, of the place `offset` characters into a text. `line` and
`column` are those of its first character. A carriage return and a line feed end one line. -/
def placeFrom (line column : Nat) : Nat → List Char → Nat × Nat
  | 0, _ => (line, column)
  | _ + 1, [] => (line, column)
  | offset + 1, '\r' :: '\n' :: rest =>
    match offset with
    | 0 => (line, column + 1)
    | offset + 1 => placeFrom (line + 1) 1 offset rest
  | offset + 1, c :: rest =>
    if isLineEnd c then placeFrom (line + 1) 1 offset rest
    else placeFrom line (column + 1) offset rest

/-- The place of a span in a named script. Without a span it is the start of the script. -/
def locate (name text : String) (span : Option Span) : String :=
  let place := placeFrom 1 1 ((span.map Span.start).getD 0) text.toList
  name ++ ":" ++ toString place.1 ++ ":" ++ toString place.2

/-- The first line of a report. -/
def headerOf (code message : String) : String :=
  "[" ++ code ++ "] Error: " ++ message

/-- The label for a failure. -/
def errorLabel : ErrorKind → String
  | .value (.notNumeric text) => text ++ " is not an integer"
  | .value (.notBoolean text) => text ++ " is not a boolean"
  | .value (.strayCharacter c) => "Stray " ++ c.toString ++ " in list value"
  | .unknownCommand text => "No stored script named " ++ text
  | .argumentCount _ expected found =>
    "Takes " ++ expected.text ++ " arguments, given " ++ toString found
  | .imbalance pairing => pairing.message
  | .divisionByZero => "Divisor is zero"
  | .unexpectedToken _ => "Not allowed here"
  | .negativeIndex index => "Index " ++ Decimal.ofInt64 index ++ " is negative"
  | .tooDeep limit => "Nesting limit is " ++ toString limit

/-- The report on a failure of the script with a given name. -/
def ofError (name : String) (error : RunError) : Report where
  header := headerOf error.kind.code error.kind.message
  location := some (locate name (error.scripts.headD "") error.span)
  label := some (errorLabel error.kind)
  notes := error.scripts.tail.map fun outer => "called from " ++ Text.trim outer

/-- The label for a finding, if it belongs to one token. -/
def findingLabel? : FindingKind → Option String
  | .unknownCommand text => some ("No keyword or stored script matches " ++ text)
  | .misplaced part _ => some ((Keyword.branch part).spelling ++ " cannot follow here")
  | _ => none

/-- The report on a finding. The name is used for a script that is not stored; a finding that
belongs to no token has no place. -/
def ofFinding (name : String) (finding : Finding) : Report where
  header := headerOf finding.kind.code finding.kind.message
  location := (findingLabel? finding.kind).map fun _ =>
    locate (finding.key.getD name) (finding.script.getD "") finding.span
  label := findingLabel? finding.kind
  notes := []

end Report

end AtScript
