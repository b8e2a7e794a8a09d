import AtScript.Keyword.Table
import AtScript.Text.Lines

/-! # Findings

What a check of a script without running it can find.
-/

namespace AtScript

/-- What is wrong with a script or a store. -/
inductive FindingKind where
  /-- A command is neither a keyword nor a stored script. -/
  | unknownCommand (text : String)
  /-- The token at `index` cannot follow the branch keyword before it. -/
  | misplaced (part : Branch) (index : Nat)
  /-- Calls and closing parentheses differ in number. -/
  | parentheses
  /-- IF and ENDIF differ in number. -/
  | ifCount
  /-- IF and ELSEIF together differ in number from THEN. -/
  | thenCount
  /-- The openings and the ends of a family of loops differ in number. -/
  | loopCount (family : LoopFamily)
  /-- A key of the store is blank. -/
  | blankKey
deriving Repr, DecidableEq

namespace FindingKind

/-- The sentence that reports a finding. -/
def message : FindingKind → String
  | .unknownCommand text => "Token not found: " ++ text
  | .misplaced part index =>
    (Keyword.branch part).spelling ++ " at " ++ toString index ++ " is invalid."
  | .parentheses => "Mismatched parenthesis"
  | .ifCount =>
    "Mismatched " ++ (Keyword.branch .ifWord).spelling ++ "/"
      ++ (Keyword.branch .endIf).spelling ++ " counts"
  | .thenCount =>
    "Mismatched " ++ (Keyword.branch .ifWord).spelling ++ "/"
      ++ (Keyword.branch .elseIf).spelling ++ " vs "
      ++ (Keyword.branch .thenWord).spelling ++ " counts"
  | .loopCount family =>
    "Mismatched @" ++ (Keyword.loop family).name ++ "/@" ++ (Keyword.endLoop family).name
  | .blankKey => "Empty or whitespace key found"

/-- The code that identifies a finding in reports. -/
def code : FindingKind → String
  | .unknownCommand _ => "VA001"
  | .misplaced _ _ => "VA002"
  | .parentheses => "VA003"
  | .ifCount => "VA004"
  | .thenCount => "VA005"
  | .loopCount _ => "VA006"
  | .blankKey => "VA007"

end FindingKind

/-- A finding and where it was made. -/
structure Finding where
  kind : FindingKind
  /-- The token at fault, if there is a single one. -/
  span : Option Span := none
  /-- The script at fault. -/
  script : Option String := none
  /-- The key under which the script is stored. -/
  key : Option String := none
deriving Repr, DecidableEq

/-- One line on a finding, with the line number of the token at fault and the key of the script as
far as they are known. -/
def Finding.summary (finding : Finding) : String :=
  let line := match finding.span, finding.script with
    | some span, some script => "(" ++ toString (Text.lineAt script span.start) ++ ") "
    | _, _ => ""
  let key := match finding.key with
    | some key => " \x7bkey: " ++ key ++ "\x7d"
    | none => ""
  line ++ "[" ++ finding.kind.code ++ "] " ++ finding.kind.message ++ key

end AtScript
