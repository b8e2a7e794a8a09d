import AtScript.Engine.Error
import AtScript.Keyword.Dump
import AtScript.Text.Lines
import AtScript.Token.Listing

/-! # Failures as text -/

namespace AtScript

/-- One line on a failure, with its line number in the innermost script and the number of scripts
around that one. -/
def RunError.summary (error : RunError) : String :=
  let line := match error.span, error.scripts with
    | some span, script :: _ => Text.lineAt script span.start
    | _, _ => 1
  let around := error.scripts.length - 1
  "(" ++ toString line ++ ") [" ++ error.kind.code ++ "] " ++ error.kind.message
    ++ (if around = 0 then "" else " \x7bnested " ++ toString around ++ "\x7d")

/-- An arity as dumps show it. -/
def Arity.dump (arity : Arity) : String :=
  let most := match arity.max with
    | some count => "Some(" ++ toString count ++ ")"
    | none => "None"
  "Arity \x7b min: " ++ toString arity.min ++ ", max: " ++ most ++ " \x7d"

/-- A broken pairing as dumps show it. -/
def Imbalance.dump : Imbalance → String
  | .unclosedParenthesis => "UnclosedParenthesis"
  | .unmatchedParenthesis => "UnmatchedParenthesis"
  | .missingThen => "MissingThen"
  | .missingEndIf => "MissingEndIf"
  | .missingEnd family => "MissingEnd(" ++ (Keyword.endLoop family).dumpName ++ ")"
  | .unexpected keyword => "Unexpected(" ++ keyword.dumpName ++ ")"

/-- The name of an error in dumps and records. -/
def ErrorKind.label : ErrorKind → String
  | .value (.notNumeric _) => "NotNumeric"
  | .value (.notBoolean _) => "NotBoolean"
  | .value (.strayCharacter _) => "UnexpectedCharacter"
  | .unknownCommand _ => "TokenNotFound"
  | .argumentCount _ _ _ => "ParamCountMismatch"
  | .imbalance _ => "StructuralImbalance"
  | .divisionByZero => "DivideByZero"
  | .unexpectedToken _ => "UnexpectedToken"
  | .negativeIndex _ => "InvalidIndex"
  | .tooDeep _ => "RecursionLimit"

/-- An error as dumps show it. -/
def ErrorKind.dump (kind : ErrorKind) : String :=
  match kind with
  | .value (.notNumeric text) => kind.label ++ "(" ++ Text.display text ++ ")"
  | .value (.notBoolean text) => kind.label ++ "(" ++ Text.display text ++ ")"
  | .value (.strayCharacter c) => kind.label ++ "('" ++ c.toString ++ "')"
  | .unknownCommand text => kind.label ++ "(" ++ Text.display text ++ ")"
  | .argumentCount text expected found =>
    kind.label ++ " \x7b token: " ++ Text.display text ++ ", expected: " ++ expected.dump
      ++ ", found: " ++ toString found ++ " \x7d"
  | .imbalance pairing => kind.label ++ "(" ++ pairing.dump ++ ")"
  | .divisionByZero => kind.label
  | .unexpectedToken text => kind.label ++ "(" ++ Text.display text ++ ")"
  | .negativeIndex index => kind.label ++ "(" ++ Decimal.ofInt64 index ++ ")"
  | .tooDeep limit => kind.label ++ "(" ++ toString limit ++ ")"

/-- All that a failure holds, on one line. -/
def RunError.dump (error : RunError) : String :=
  let span := match error.span with
    | some span => "Some(" ++ span.dump ++ ")"
    | none => "None"
  "RuntimeError \x7b kind: " ++ error.kind.dump ++ ", span: " ++ span ++ ", scripts: ["
    ++ ", ".intercalate (error.scripts.map Text.display) ++ "] \x7d"

end AtScript
