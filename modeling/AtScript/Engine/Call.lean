import AtScript.Engine.Arguments
import AtScript.Engine.Primitive

/-! # Calls

A command that shapes no control flow is a keyword or names a stored script.
-/

namespace AtScript.Exec

variable {S : Type} [Store S]

/-! ## Keywords without control flow -/

/-- Runs a keyword on its arguments. -/
def builtin (run : Runner S) (keyword : Keyword) (span : Span) (values : List String) :
    Exec S Unit :=
  match keyword, values with
  | .exec, [script] => nested run script
  | .script, [key] => do
    nested run (Store.get (← store) key)
  | .getValue, [key] => do
    let value := Store.get (← store) key
    if Value.isScript value then nested run value else write value
  | keyword, values => Primitive.run span keyword values

/-- Evaluates the arguments of a keyword, in at most `budget` steps, and runs it. -/
def builtinCall (budget : Nat) (run : Runner S) (keyword : Keyword) (command : Token)
    (rest : List Token) : Exec S (List Token) := do
  let (values, after) ← arguments budget run command rest
  checkArity command keyword.arity values.length
  builtin run keyword command.span values
  return after

/-! ## Stored scripts -/

/-- The parameters that a stored script declares. `declared` is what its key has after the name and
the opening parenthesis. -/
def parameters (declared : List Char) : List String :=
  let inner := (Text.dropSuffix? [')'] (Text.dropBlankEnd declared)).getD declared
  ((inner.splitOn ',').map fun name => String.ofList (Text.trimChars name)).filter (!·.isEmpty)

/-- A script with each parameter, after a dollar sign, replaced by its argument, one parameter after
the other. -/
def bindParameters (script : String) (bindings : List (String × String)) : String :=
  bindings.foldl (fun text binding => Text.replaceAll text ("$" ++ binding.1) binding.2) script

/-- Runs a stored script by its name. A bare name is the whole key; a call runs the first script
whose key begins with the text of the call, with its arguments in place of the declared parameters.
The arguments take at most `budget` steps. -/
def storedCall (budget : Nat) (run : Runner S) (command : Token) (rest : List Token) :
    Exec S (List Token) := do
  let current ← store
  if command.kind = .call then
    match Store.entriesFrom current command.text with
    | [] => fail (.unknownCommand command.text) command.span
    | (key, script) :: _ =>
      let names := parameters ((Store.afterStart? command.text key).getD [])
      let (values, after) ← arguments budget run command rest
      checkArity command (.exactly names.length) values.length
      nested run (bindParameters script (names.zip values))
      return after
  else
    let script := Store.get current command.text
    if script.isEmpty then fail (.unknownCommand command.text) command.span
    else
      nested run script
      return rest

end AtScript.Exec
