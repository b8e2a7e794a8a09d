import AtScript.Engine.Error
import AtScript.Random.Below
import AtScript.Store.Basic

/-! # Engines and the computations they run

An engine holds the store and everything else that a script can change: the two queues it shares
with its host, the random generator and the depth of nesting. A running command works on a *frame*,
which is an engine together with the text written so far.
-/

namespace AtScript

/-- What the host decides about an engine. -/
structure Options where
  /-- How deeply scripts may be nested, if there is a limit. -/
  maxDepth : Option Nat := none
  /-- The seed of the random generator. -/
  seed : UInt64 := 0
deriving Repr, DecidableEq

/-- An engine over a store. -/
structure Engine (S : Type) where
  store : S
  /-- Texts from the host that no script has taken yet, the next one first. -/
  inbox : List String
  /-- Texts for the host, the newest first. -/
  sent : List String
  options : Options
  generator : Random.Generator
  /-- The number of scripts that are running, each nested in the one before. -/
  depth : Nat

def Engine.new {S : Type} (store : S) (options : Options) : Engine S where
  store := store
  inbox := []
  sent := []
  options := options
  generator := .ofSeed options.seed
  depth := 0

/-- Texts for the host, the oldest first. -/
def Engine.outbox {S : Type} (engine : Engine S) : List String :=
  engine.sent.reverse

/-- An engine and the output of the script it runs. -/
structure Frame (S : Type) where
  engine : Engine S
  out : String

namespace Frame

variable {S : Type}

def write (frame : Frame S) (text : String) : Frame S :=
  { frame with out := frame.out ++ text }

def mapStore (frame : Frame S) (change : S → S) : Frame S :=
  { frame with engine := { frame.engine with store := change frame.engine.store } }

def withGenerator (frame : Frame S) (generator : Random.Generator) : Frame S :=
  { frame with engine := { frame.engine with generator := generator } }

/-- Changes what is left of the texts from the host. -/
def withInbox (frame : Frame S) (texts : List String) : Frame S :=
  { frame with engine := { frame.engine with inbox := texts } }

/-- Queues a text for the host. -/
def send (frame : Frame S) (text : String) : Frame S :=
  { frame with engine := { frame.engine with sent := text :: frame.engine.sent } }

/-- Enters a nested script. -/
def enter (frame : Frame S) : Frame S :=
  { frame with engine := { frame.engine with depth := frame.engine.depth + 1 } }

/-- Leaves a nested script, if one is running. -/
def leave? (frame : Frame S) : Option (Frame S) :=
  match frame.engine.depth with
  | 0 => none
  | depth + 1 => some { frame with engine := { frame.engine with depth := depth } }

/-- The limit that a further script would exceed. -/
def exceededLimit? (frame : Frame S) : Option Nat :=
  frame.engine.options.maxDepth.filter (· < frame.engine.depth)

end Frame

/-- Why a computation stops early. -/
inductive Stop (ε : Type) where
  /-- It fails with an error of the language. -/
  | failed (error : ε)
  /-- It needs more steps than it was given. -/
  | outOfFuel
  /-- It would make a list that is longer than any list can be. The whole run is given up, and what
  it has done until then is lost to the host. -/
  | tooLong
  /-- It meets a state that the rest of the library rules out. -/
  | defect
deriving Repr, DecidableEq

namespace Stop

def map {ε δ : Type} (change : ε → δ) : Stop ε → Stop δ
  | .failed error => .failed (change error)
  | .outOfFuel => .outOfFuel
  | .tooLong => .tooLong
  | .defect => .defect

end Stop

/-- Why a command that runs no script stops early. -/
abbrev Fault : Type := Stop ErrorKind

/-- A computation on frames. -/
abbrev Exec (S : Type) : Type → Type := EStateM (Stop RunError) (Frame S)

namespace Exec

variable {S α : Type}

/-- Fails with an error at a token. -/
def fail (kind : ErrorKind) (span : Span) : Exec S α :=
  throw (.failed (.atSpan kind span))

def store : Exec S S := do
  return (← get).engine.store

def write (text : String) : Exec S Unit :=
  modify (·.write text)

def mapStore (change : S → S) : Exec S Unit :=
  modify (·.mapStore change)

/-- Takes over the result of a pure reading of a value. -/
def ofValue (span : Span) : Except ValueError α → Exec S α
  | .ok value => pure value
  | .error error => fail (.value error) span

/-- Takes over the result of a pure computation; the token at which it fails is `span`. -/
def ofFault (span : Span) : Except Fault α → Exec S α
  | .ok value => pure value
  | .error fault => throw (fault.map fun kind => .atSpan kind span)

/-- Runs a computation with an output of its own and gives that output. What a failing computation
has written is lost. -/
def capture (action : Exec S α) : Exec S (α × String)
  | ⟨engine, out⟩ =>
    match action ⟨engine, ""⟩ with
    | .ok value after => .ok (value, after.out) ⟨after.engine, out⟩
    | .error stop after => .error stop ⟨after.engine, out⟩

end Exec

end AtScript
