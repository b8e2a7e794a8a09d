import AtScript.Value.Decimal

/-! # Requests

What the arguments of the program ask for. A subcommand names the task, one operand names the file
that holds the script, and options say the rest. Options may stand anywhere after the subcommand.
-/

namespace AtScript.CommandLine

/-- How tokens are listed. -/
inductive TokenFormat where
  | basic | debug
deriving Repr, DecidableEq

/-- How problems are shown. -/
inductive ProblemFormat where
  | basic | pretty
deriving Repr, DecidableEq

/-- What the program is asked to do with the script in a file. -/
inductive Request where
  | tokenize (path : String) (format : TokenFormat)
  | validate (path : String) (entries : List (String × String)) (format : ProblemFormat)
  | pretty (path : String)
  | run (path : String) (entries : List (String × String)) (inputs : List String)
    (seed : Option UInt64) (maxDepth : Option Nat) (format : ProblemFormat)
deriving Repr, DecidableEq

/-- The file that holds the script. -/
def Request.path : Request → String
  | .tokenize path _ | .validate path _ _ | .pretty path | .run path _ _ _ _ _ => path

/-- Arguments sorted into operands and options with their values. -/
structure Arguments where
  operands : List String := []
  options : List (String × String) := []
deriving Repr, DecidableEq

/-- Whether an argument is a request for more log messages. -/
def isVerbose (argument : String) : Bool :=
  match argument.toList with
  | '-' :: 'v' :: rest => rest.all (· == 'v')
  | _ => argument == "--verbose"

/-- Whether an argument could be an option and so is no value. -/
def looksLikeOption (argument : String) : Bool :=
  match argument.toList with
  | '-' :: _ :: _ => true
  | _ => false

/-- Splits a text at its first equals sign. -/
def splitEntry? (text : String) : Option (String × String) :=
  let key := text.toList.takeWhile (· ≠ '=')
  match text.toList.drop key.length with
  | _ :: value => some (String.ofList key, String.ofList value)
  | [] => none

/-- The name of a long option and the value attached to it. -/
def longOption? (argument : String) : Option (String × Option String) :=
  match argument.toList with
  | '-' :: '-' :: _ =>
    match splitEntry? argument with
    | some (name, value) => some (name, some value)
    | none => some (argument, none)
  | _ => none

def Arguments.addOperand (operand : String) (gathered : Arguments) : Arguments :=
  { gathered with operands := operand :: gathered.operands }

def Arguments.addOption (name value : String) (gathered : Arguments) : Arguments :=
  { gathered with options := (name, value) :: gathered.options }

/-- Sorts arguments, when all options are among the allowed ones and have a value. Everything after
two dashes is an operand. -/
def gather? (allowed : List String) : List String → Option Arguments
  | [] => some {}
  | [argument] =>
    if argument = "--" || isVerbose argument then some {}
    else match longOption? argument with
      | some (name, some value) =>
        if allowed.contains name then some { options := [(name, value)] } else none
      | some (_, none) => none
      | none => if looksLikeOption argument then none else some { operands := [argument] }
  | argument :: next :: rest =>
    if argument = "--" then some { operands := next :: rest }
    else if isVerbose argument then gather? allowed (next :: rest)
    else match longOption? argument with
      | some (name, some value) =>
        if allowed.contains name then
          (gather? allowed (next :: rest)).map (·.addOption name value)
        else none
      | some (name, none) =>
        if allowed.contains name && !looksLikeOption next then
          (gather? allowed rest).map (·.addOption name next)
        else none
      | none =>
        if looksLikeOption argument then none
        else (gather? allowed (next :: rest)).map (·.addOperand argument)

/-- The values of an option, in order. -/
def Arguments.valuesOf (gathered : Arguments) (name : String) : List String :=
  (gathered.options.filter (·.1 == name)).map Prod.snd

/-- The one operand, which must not be empty. -/
def Arguments.path? (gathered : Arguments) : Option String :=
  match gathered.operands with
  | [path] => if path.isEmpty then none else some path
  | _ => none

/-- The value of an option that may be given once: read if given, else the default. -/
def Arguments.single? {α : Type} (gathered : Arguments) (name : String) (default : α)
    (read : String → Option α) : Option α :=
  match gathered.valuesOf name with
  | [] => some default
  | [value] => read value
  | _ => none

def tokenFormat? : String → Option TokenFormat
  | "basic" => some .basic
  | "debug" => some .debug
  | _ => none

def problemFormat? : String → Option ProblemFormat
  | "basic" => some .basic
  | "pretty" => some .pretty
  | _ => none

/-- Reads a number of 64 bits. -/
def word? (text : String) : Option Nat :=
  Decimal.word64? text.toList

/-- The request that a subcommand and its arguments make. -/
def subcommand? (name : String) (arguments : List String) : Option Request :=
  match name with
  | "tokenize" => do
    let gathered ← gather? ["--format"] arguments
    return .tokenize (← gathered.path?) (← gathered.single? "--format" .basic tokenFormat?)
  | "validate" => do
    let gathered ← gather? ["--set", "--format"] arguments
    let entries ← (gathered.valuesOf "--set").mapM splitEntry?
    let format ← gathered.single? "--format" .basic problemFormat?
    return .validate (← gathered.path?) entries format
  | "pretty" => do
    let gathered ← gather? [] arguments
    return .pretty (← gathered.path?)
  | "run" => do
    let gathered ← gather? ["--set", "--input", "--seed", "--max-depth", "--format"] arguments
    let entries ← (gathered.valuesOf "--set").mapM splitEntry?
    let seed ← gathered.single? "--seed" none fun text => (word? text).map (some ∘ UInt64.ofNat)
    let maxDepth ← gathered.single? "--max-depth" none fun text => (word? text).map some
    let format ← gathered.single? "--format" .basic problemFormat?
    return .run (← gathered.path?) entries (gathered.valuesOf "--input") seed maxDepth format
  | _ => none

/-- The request that all arguments of the program make, if they make one. -/
def parse? : List String → Option Request
  | [] => none
  | argument :: rest =>
    if isVerbose argument then parse? rest else subcommand? argument rest

end AtScript.CommandLine
