import AtScript.Check.Script
import AtScript.CommandLine.Request
import AtScript.Engine.Run
import AtScript.Engine.Summary
import AtScript.Layout
import AtScript.Report
import AtScript.Store.Dictionary

/-! # Responses

What the program writes for a request, given the text of the script, and the code it exits with.
Reading the file and writing the answer are left to the program itself.
-/

namespace AtScript.CommandLine

/-- What the program writes and the code it exits with. -/
structure Response where
  code : UInt8
  stdout : String := ""
  stderr : String := ""
deriving Repr, DecidableEq

/-- The exit code when a check or a run has failed. -/
def failureCode : UInt8 := 65

/-- The answer to arguments that make no request. -/
def badArguments : Response := { code := 2 }

/-- The answer when the program cannot do its work, or a run is given up. -/
def broken : Response := { code := 101 }

/-- Texts, each ended by a line feed. -/
def lines (texts : List String) : String :=
  String.join (texts.map (· ++ "\n"))

def storeOf (entries : List (String × String)) : Dictionary :=
  entries.foldl (fun store entry => Store.set store entry.1 entry.2) .empty

def reportText (report : Report) : String :=
  let place := report.location.toList ++ report.label.toList
  "\n".intercalate ([report.header] ++ place ++ report.notes)

def findingText (name : String) (finding : Finding) : ProblemFormat → String
  | .basic => finding.summary
  | .pretty => reportText (.ofFinding name finding)

def errorText (name : String) (error : RunError) : ProblemFormat → String
  | .basic => error.summary
  | .pretty => reportText (.ofError name error)

/-- Lists the tokens of a script. -/
def tokenize (format : TokenFormat) (script : String) : Response :=
  let tokens := Token.scan script
  let listing := match format with
    | .basic => Token.listings script tokens
    | .debug => tokens.map Token.dump
  { code := 0, stdout := lines listing }

/-- Checks a script and the scripts in a store. -/
def validate (name : String) (entries : List (String × String)) (format : ProblemFormat)
    (script : String) : Response :=
  let store := storeOf entries
  let findings := Check.script store script ++ Check.entries store
  { code := if findings.isEmpty then 0 else failureCode
    stderr := lines (findings.map fun finding => findingText name finding format) }

def pretty (script : String) : Response :=
  match Layout.script script with
  | .ok text => { code := 0, stdout := lines [text] }
  | .error _ => broken

/-- Runs a script on a new store. The output is followed by the texts queued for the host. -/
def run (name : String) (entries : List (String × String)) (inputs : List String)
    (options : Options) (format : ProblemFormat) (script : String) : Response :=
  let outcome := ((Engine.new (storeOf entries) options).pushIn inputs).run script
  let stdout := lines [outcome.output.getD ""] ++ lines (outcome.engine.outbox.map ("[out] " ++ ·))
  match outcome.result with
  | .ok () => { code := 0, stdout := stdout }
  | .error (.failed error) =>
    { code := failureCode, stdout := stdout, stderr := lines [errorText name error format] }
  | .error _ => broken

/-- The answer to a request, given the text of its script. `chosenSeed` is the seed of a run that
asks for none. -/
def respond (chosenSeed : UInt64) (script : String) : Request → Response
  | .tokenize _ format => tokenize format script
  | .validate name entries format => validate name entries format script
  | .pretty _ => pretty script
  | .run name entries inputs seed maxDepth format =>
    run name entries inputs { maxDepth := maxDepth, seed := seed.getD chosenSeed } format script

end AtScript.CommandLine
