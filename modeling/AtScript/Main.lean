import AtScript.CommandLine.Response

/-! # The program -/

namespace AtScript.CommandLine

/-- Reads the file of a request and answers it. -/
def answer (request : Request) : IO Response := do
  let seed ← IO.rand 0 (UInt64.size - 1)
  match ← (IO.FS.readFile request.path).toBaseIO with
  | .ok script => return respond (UInt64.ofNat seed) script request
  | .error _ => return broken

/-- Answers the arguments of the program. -/
def answerArguments (arguments : List String) : IO Response :=
  match parse? arguments with
  | some request => answer request
  | none => return badArguments

end AtScript.CommandLine

/-- Runs the command line. -/
def main (arguments : List String) : IO UInt32 := do
  let response ← AtScript.CommandLine.answerArguments arguments
  IO.print response.stdout
  IO.eprint response.stderr
  return response.code.toUInt32
