import AtScript.Engine.Basic
import AtScript.Token.Scan

/-! # Running the tokens of a script

A script is run straight from its tokens: each command takes the tokens it needs from the front and
gives back the rest. Commands may contain commands, so what follows is written for a given way to
run one command, a `Runner`.
-/

namespace AtScript

/-- What a token means to a running script. -/
inductive Role where
  | comma
  | close
  | literal (value : String)
  | keyword (keyword : Keyword)
  /-- A command that names a stored script. -/
  | stored
deriving Repr, DecidableEq

/-- The role of a token. -/
def Token.role (token : Token) : Role :=
  match token.kind with
  | .comma => .comma
  | .close => .close
  | _ =>
    if token.isLiteral then .literal token.literalValue
    else match Keyword.ofToken? token with
      | some keyword => .keyword keyword
      | none => .stored

/-- A way to run the command at the front of some tokens; the result is the tokens after it. -/
abbrev Runner (S : Type) : Type := List Token → Exec S (List Token)

namespace Exec

variable {S : Type}

/-- Runs commands until no token is left, at most `budget` of them. -/
def sequence (run : Runner S) : Nat → List Token → Exec S Unit
  | _, [] => pure ()
  | 0, _ :: _ => throw .outOfFuel
  | budget + 1, tokens => do
    let rest ← run tokens
    sequence run budget rest

/-- Runs all of some tokens. Every command takes a token, so there are at most as many commands as
tokens. -/
def sequenceAll (run : Runner S) (tokens : List Token) : Exec S Unit :=
  sequence run tokens.length tokens

/-- Runs a script inside the running one, on the same engine and the same output. -/
def nested (run : Runner S) (script : String) : Exec S Unit := fun frame =>
  match frame.exceededLimit? with
  | some limit => .error (.failed ⟨.tooDeep limit, none, [script]⟩) frame
  | none =>
    match sequenceAll run (Token.scan script) frame.enter with
    | .ok () after =>
      match after.leave? with
      | some outer => .ok () outer
      | none => .error .defect after
    | .error stop after =>
      match after.leave? with
      | some outer => .error (stop.map (·.inScript script)) outer
      | none => .error .defect after

end Exec

end AtScript
