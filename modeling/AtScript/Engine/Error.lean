import AtScript.Keyword.Table
import AtScript.Value.Reading

/-! # Failures of a run

A run fails for one of the causes of `ErrorKind`. The failure records the token at which it arose
and the scripts it travelled through, the innermost first.
-/

namespace AtScript

/-- Which pairing of tokens is broken. -/
inductive Imbalance where
  | unclosedParenthesis
  | unmatchedParenthesis
  | missingThen
  | missingEndIf
  | missingEnd (family : LoopFamily)
  | unexpected (keyword : Keyword)
deriving Repr, DecidableEq

/-- The words that describe a broken pairing. -/
def Imbalance.message : Imbalance → String
  | .unclosedParenthesis => "missing closing parenthesis"
  | .unmatchedParenthesis => "closing parenthesis without a call"
  | .missingThen => "condition without " ++ (Keyword.branch .thenWord).spelling
  | .missingEndIf => "branch without " ++ (Keyword.branch .endIf).spelling
  | .missingEnd family => "loop without " ++ (Keyword.endLoop family).spelling
  | .unexpected keyword => "unexpected " ++ keyword.spelling

/-- Why a script fails. -/
inductive ErrorKind where
  /-- A value cannot be read as the command needs it. -/
  | value (error : ValueError)
  /-- A command is neither a keyword nor a stored script. -/
  | unknownCommand (text : String)
  /-- A call has too few or too many arguments. -/
  | argumentCount (text : String) (expected : Arity) (found : Nat)
  | imbalance (pairing : Imbalance)
  | divisionByZero
  /-- A token stands where it is not allowed. -/
  | unexpectedToken (text : String)
  /-- A position in a list is negative. -/
  | negativeIndex (index : Int64)
  /-- Scripts are nested more deeply than the limit allows. -/
  | tooDeep (limit : Nat)
deriving Repr, DecidableEq

namespace ErrorKind

/-- The sentence that reports an error. -/
def message : ErrorKind → String
  | .value error => error.message
  | .unknownCommand text => "Token not found: " ++ text
  | .argumentCount text expected found =>
    "Incorrect number of parameters: " ++ text ++ expected.text ++ ") - Found: " ++ toString found
  | .imbalance pairing => "Structural imbalance: " ++ pairing.message
  | .divisionByZero => "Divide by zero"
  | .unexpectedToken text => "Unexpected token: " ++ text
  | .negativeIndex index => "Invalid list index: " ++ Decimal.ofInt64 index
  | .tooDeep limit => "Script nesting deeper than " ++ toString limit ++ " levels"

/-- The code that identifies an error in reports. -/
def code : ErrorKind → String
  | .value (.notNumeric _) => "RT001"
  | .value (.notBoolean _) => "RT002"
  | .unknownCommand _ => "RT003"
  | .argumentCount _ _ _ => "RT004"
  | .imbalance _ => "RT005"
  | .divisionByZero => "RT006"
  | .value (.strayCharacter _) => "RT007"
  | .unexpectedToken _ => "RT008"
  | .negativeIndex _ => "RT009"
  | .tooDeep _ => "RT010"

end ErrorKind

structure RunError where
  kind : ErrorKind
  /-- The failing token in the innermost script. -/
  span : Option Span
  /-- The scripts that were running, the outermost first. -/
  trail : List String
deriving Repr, DecidableEq

namespace RunError

/-- The failure at a token of a script that is still to be recorded. -/
def atSpan (kind : ErrorKind) (span : Span) : RunError :=
  ⟨kind, some span, []⟩

/-- Records the script that a failure leaves. -/
def inScript (error : RunError) (script : String) : RunError :=
  { error with trail := script :: error.trail }

/-- The scripts that were running, the innermost first. -/
def scripts (error : RunError) : List String :=
  error.trail.reverse

theorem scripts_inScript (error : RunError) (script : String) :
    (error.inScript script).scripts = error.scripts ++ [script] :=
  List.reverse_cons

/-- The message followed by the scripts, each on a new line. -/
def fullText (error : RunError) : String :=
  error.kind.message ++ String.join (error.scripts.map ("\n" ++ ·))

end RunError

end AtScript
