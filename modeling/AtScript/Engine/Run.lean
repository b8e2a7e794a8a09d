import AtScript.Engine.Command

/-! # Running scripts -/

namespace AtScript

variable {S : Type}

/-- What a run leaves behind. -/
structure Outcome (S : Type) where
  engine : Engine S
  /-- What the script wrote, or nothing at all when there was no script to run. -/
  output : Option String
  result : Except (Stop RunError) Unit

namespace Engine

variable [Store S]

/-- Runs a script whose commands are contained in one another at most `fuel` deep and have no more
than `fuel` parts. A blank or null script does nothing. What a script has written and stored before
it fails is kept. -/
def runWithin (fuel : Nat) (engine : Engine S) (script : String) : Outcome S :=
  if Value.isNull script then ⟨engine, none, .ok ()⟩
  else
    match Exec.nested (Exec.command fuel) script ⟨engine, ""⟩ with
    | .ok () frame => ⟨frame.engine, some frame.out, .ok ()⟩
    | .error stop frame => ⟨frame.engine, some frame.out, .error stop⟩

/-- More fuel than a machine can use. -/
def ampleFuel : Nat := 1 <<< 62

/-- Runs a script. -/
def run (engine : Engine S) (script : String) : Outcome S :=
  engine.runWithin ampleFuel script

/-- Queues texts for scripts to take. -/
def pushIn (engine : Engine S) (texts : List String) : Engine S :=
  { engine with inbox := engine.inbox ++ texts }

/-- Takes the oldest text that a script has queued. -/
def popOut (engine : Engine S) : Option String × Engine S :=
  match engine.outbox with
  | [] => (none, engine)
  | text :: rest => (some text, { engine with sent := rest.reverse })

/-- Takes all texts that scripts have queued. -/
def drainOut (engine : Engine S) : List String × Engine S :=
  (engine.outbox, { engine with sent := [] })

end Engine

end AtScript
