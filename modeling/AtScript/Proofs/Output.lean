import AtScript.Engine.Run
import AtScript.Proofs.Progress
import AtScript.Store.Dictionary

/-! # Output is only added to

A computation adds to what was written before, and what it adds does not depend on that. Neither
does anything else that it does. Of the rest of an engine, the options and the depth of nesting stay
as they are; values are written to the store; texts from the host are taken in their order, and
texts for the host are only added.
-/

namespace AtScript

variable {S : Type} [Store S]

/-- What becomes of an engine in a run. -/
structure Engine.Evolves (engine after : Engine S) : Prop where
  store : Store.Writes engine.store after.store
  options : after.options = engine.options
  depth : after.depth = engine.depth
  inbox : after.inbox <:+ engine.inbox
  sent : engine.sent <:+ after.sent

namespace Engine.Evolves

theorem refl (engine : Engine S) : engine.Evolves engine :=
  ⟨.refl, rfl, rfl, List.suffix_rfl, List.suffix_rfl⟩

theorem trans {engine middle after : Engine S} (hfirst : engine.Evolves middle)
    (hsecond : middle.Evolves after) : engine.Evolves after where
  store := hfirst.store.trans hsecond.store
  options := hsecond.options.trans hfirst.options
  depth := hsecond.depth.trans hfirst.depth
  inbox := hsecond.inbox.trans hfirst.inbox
  sent := hfirst.sent.trans hsecond.sent

end Engine.Evolves

namespace Exec

variable {α β : Type}

/-- From one engine, a computation gives the same result whatever was written before, adds the same
text to it and leaves the same engine. -/
inductive AppendsFrom (engine : Engine S) (action : Exec S α) : Prop
  | ok (value : α) (after : Engine S) (written : String) (hevolves : engine.Evolves after)
      (hresult : ∀ out, action ⟨engine, out⟩ = .ok value ⟨after, out ++ written⟩)
  | error (stop : Stop RunError) (after : Engine S) (written : String)
      (hevolves : engine.Evolves after)
      (hresult : ∀ out, action ⟨engine, out⟩ = .error stop ⟨after, out ++ written⟩)

/-- A computation that only adds to what was written, from every engine. -/
def Appends (action : Exec S α) : Prop :=
  ∀ engine, AppendsFrom engine action

namespace Appends

variable {action : Exec S α}

theorem pure (value : α) : Appends (S := S) (pure value) := by
  intro engine
  refine .ok value engine "" (.refl engine) fun out => ?_
  rw [String.append_empty]
  rfl

theorem throw (stop : Stop RunError) : Appends (S := S) (α := α) (throw stop) := by
  intro engine
  refine .error stop engine "" (.refl engine) fun out => ?_
  rw [String.append_empty]
  rfl

/-- What follows a computation may rest on what the computation ensures of its value. -/
theorem bind {between : α → Prop} {next : α → Exec S β} (haction : Appends action)
    (hensures : Ensures (fun _ => True) between action)
    (hnext : ∀ value, between value → Appends (next value)) : Appends (action >>= next) := by
  intro engine
  cases haction engine with
  | error stop after written hevolves hresult =>
      refine .error stop after written hevolves fun out => ?_
      rw [bind_apply, hresult]
  | ok value middle written hevolves hresult =>
      cases hnext value (hensures.of_ok (hresult "")) middle with
      | ok value' after written' hevolves' hresult' =>
          refine .ok value' after (written ++ written') (hevolves.trans hevolves') fun out => ?_
          rw [bind_apply, hresult, ← String.append_assoc]
          exact hresult' _
      | error stop after written' hevolves' hresult' =>
          refine .error stop after (written ++ written') (hevolves.trans hevolves') fun out => ?_
          rw [bind_apply, hresult, ← String.append_assoc]
          exact hresult' _

theorem write (text : String) : Appends (S := S) (write text) :=
  fun engine => .ok () engine text (.refl engine) fun _ => rfl

theorem store : Appends (S := S) store := by
  intro engine
  refine .ok engine.store engine "" (.refl engine) fun out => ?_
  rw [String.append_empty]
  rfl

theorem mapStore {change : S → S} (hchange : ∀ store, Store.Writes store (change store)) :
    Appends (mapStore change) := by
  intro engine
  refine .ok () { engine with store := change engine.store } ""
    ⟨hchange engine.store, rfl, rfl, List.suffix_rfl, List.suffix_rfl⟩ fun out => ?_
  rw [String.append_empty]
  rfl

/-- What is captured is not added to what was written. -/
theorem capture (haction : Appends action) : Appends (capture action) := by
  intro engine
  cases haction engine with
  | ok value after written hevolves hresult =>
      refine .ok (value, "" ++ written) after "" hevolves fun out => ?_
      simp only [Exec.capture, hresult, String.append_empty]
  | error stop after written hevolves hresult =>
      refine .error stop after "" hevolves fun out => ?_
      simp only [Exec.capture, hresult, String.append_empty]

/-- A nested script ends as deep as it began. -/
theorem nested {run : Runner S} {script : String}
    (hscript : Appends (sequenceAll run (Token.scan script))) : Appends (nested run script) := by
  intro engine
  cases hlimit : Frame.exceededLimit? ⟨engine, ""⟩ with
  | some limit =>
      refine .error (.failed ⟨.tooDeep limit, none, [script]⟩) engine "" (.refl engine) ?_
      intro out
      rw [String.append_empty]
      exact nested_of_exceeded run hlimit
  | none =>
      -- The limit does not depend on what was written.
      have hlimit (out : String) : Frame.exceededLimit? ⟨engine, out⟩ = none := hlimit
      cases hscript { engine with depth := engine.depth + 1 } with
      | ok value after written hevolves hresult =>
          refine .ok () { after with depth := engine.depth } written
            ⟨hevolves.store, hevolves.options, rfl, hevolves.inbox, hevolves.sent⟩ fun out => ?_
          exact nested_ok_of_sameLevel (hlimit out) (hresult out) ⟨hevolves.options, hevolves.depth⟩
      | error stop after written hevolves hresult =>
          refine .error (stop.map (·.inScript script)) { after with depth := engine.depth } written
            ⟨hevolves.store, hevolves.options, rfl, hevolves.inbox, hevolves.sent⟩ fun out => ?_
          exact nested_error_of_sameLevel (hlimit out) (hresult out)
            ⟨hevolves.options, hevolves.depth⟩

end Appends

end Exec

/-! ## Steps that change a frame -/

namespace Primitive

open Exec

theorem random_appends (limit : Int64) : Appends (S := S) (random limit) := by
  intro engine
  rcases hdrawn : Random.integerBelow limit engine.generator with ⟨drawn, after⟩
  refine .ok () { engine with generator := after } (Decimal.ofInt64 drawn)
    ⟨.refl, rfl, rfl, List.suffix_rfl, List.suffix_rfl⟩ fun out => ?_
  simp only [random_apply, hdrawn]
  rfl

theorem chance_appends (percent : Int64) : Appends (S := S) (chance percent) := by
  intro engine
  rcases hdrawn : Random.event percent engine.generator with ⟨drawn, after⟩
  refine .ok () { engine with generator := after } (Value.ofBool drawn)
    ⟨.refl, rfl, rfl, List.suffix_rfl, List.suffix_rfl⟩ fun out => ?_
  simp only [chance_apply, hdrawn]
  rfl

theorem receive_appends : Appends (S := S) receive := by
  rintro ⟨store, inbox, sent, options, generator, depth⟩
  cases inbox with
  | nil =>
      refine .ok () ⟨store, [], sent, options, generator, depth⟩ "" (.refl _) fun out => ?_
      rw [String.append_empty]
      rfl
  | cons text rest =>
      exact .ok () ⟨store, rest, sent, options, generator, depth⟩ text
        ⟨.refl, rfl, rfl, List.suffix_cons text rest, List.suffix_rfl⟩ fun _ => rfl

theorem send_appends (text : String) : Appends (S := S) (modify (·.send text)) := by
  intro engine
  refine .ok () { engine with sent := text :: engine.sent } ""
    ⟨.refl, rfl, rfl, List.suffix_rfl, List.suffix_cons text engine.sent⟩ fun out => ?_
  rw [String.append_empty]
  rfl

end Primitive

/-! ## Commands -/

namespace Exec

theorem Elementary.appends {action : Exec S Unit} (haction : Elementary action) :
    Appends action := by
  cases haction with
  | write text => exact .write text
  | mapStore change hchange => exact .mapStore hchange
  | random limit => exact Primitive.random_appends limit
  | chance percent => exact Primitive.chance_appends percent
  | receive => exact Primitive.receive_appends
  | send text => exact Primitive.send_appends text

/-- A runner whose commands only add to what was written. -/
def RunnerAppends (run : Runner S) : Prop :=
  ∀ tokens, Appends (run tokens)

theorem sequence_appends {run : Runner S} (hrun : RunnerAppends run) (budget : Nat)
    (tokens : List Token) : Appends (sequence run budget tokens) := by
  induction budget generalizing tokens with
  | zero =>
      cases tokens with
      | nil => exact .pure ()
      | cons token rest => exact .throw _
  | succ budget ih =>
      cases tokens with
      | nil => exact .pure ()
      | cons token rest => exact .bind (hrun _) (.anyway _) fun after _ => ih after

theorem nested_appends {run : Runner S} (hrun : RunnerAppends run) (script : String) :
    Appends (nested run script) :=
  .nested (sequence_appends hrun _ _)

/-- Only adding to what was written is a judgement. -/
def Appends.judgement (places : Span → Prop) : Judgement S places where
  holds result action := Appends action ∧ Ensures (fun _ => True) result action
  pure hvalue := ⟨.pure _, .pure hvalue⟩
  bind haction hnext :=
    ⟨haction.1.bind haction.2 fun value hvalue => (hnext value hvalue).1,
      haction.2.bind fun value hvalue => (hnext value hvalue).2⟩
  fail _ _ := ⟨.throw _, .throw trivial⟩
  tooLong := ⟨.throw _, .throw trivial⟩
  elementary haction := ⟨haction.appends, .anyway _⟩
  store := ⟨.store, .anyway _⟩
  capture haction := ⟨haction.1.capture, haction.2.capture⟩

/-- Every command only adds to what was written. -/
theorem command_appends (fuel : Nat) : RunnerAppends (S := S) (command fuel) := by
  have hcommand := Judgement.command (Appends.judgement (S := S))
    (fun _ _ _ => ⟨.throw _, .throw trivial⟩) (fun _ _ _ hscript => ⟨.nested hscript.1, .anyway _⟩)
    fuel (fun _ => True)
  rintro (_ | ⟨token, rest⟩)
  · cases fuel <;> exact .throw _
  · exact (hcommand token rest fun _ _ => trivial).1

end Exec

/-! ## Whole runs -/

/-- The engines that a host can bring about: new ones, those that have run a script, and those whose
store and queues the host has changed. -/
inductive Engine.Reachable : Engine S → Prop
  | new (store : S) (options : Options) : Reachable (.new store options)
  | run {engine : Engine S} (hengine : Reachable engine) (fuel : Nat) (script : String) :
      Reachable (engine.runWithin fuel script).engine
  | host {engine : Engine S} (hengine : Reachable engine) (store : S) (inbox sent : List String) :
      Reachable { engine with store := store, inbox := inbox, sent := sent }

theorem Engine.runWithin_evolves (fuel : Nat) (engine : Engine S) (script : String) :
    engine.Evolves (engine.runWithin fuel script).engine := by
  rw [runWithin]
  split
  · exact .refl engine
  · cases Exec.nested_appends (Exec.command_appends fuel) script engine with
    | ok value after written hevolves hresult =>
        rw [hresult]
        exact hevolves
    | error stop after written hevolves hresult =>
        rw [hresult]
        exact hevolves

/-- No script is running between two runs. -/
theorem Engine.Reachable.depth_eq_zero {engine : Engine S} (hengine : engine.Reachable) :
    engine.depth = 0 := by
  induction hengine with
  | new store options => rfl
  | run hengine fuel script ih => exact (runWithin_evolves fuel _ script).depth.trans ih
  | host hengine store inbox sent ih => exact ih

/-- Whatever was written before, a command adds the same text to it, leaves the same engine and
either succeeds with the same tokens left or stops for the same reason. It changes neither the
options nor the depth, takes texts from the host in their order, and queues its own behind those
that are there. After a run, no script is running. -/
theorem Exec.command_adds_to_any_output (fuel : Nat) (engine : Engine S) (tokens : List Token) :
    (∃ after written,
      after.options = engine.options ∧ after.depth = engine.depth ∧
      after.inbox <:+ engine.inbox ∧ engine.outbox <+: after.outbox ∧
      ((∃ rest, ∀ out, command fuel tokens ⟨engine, out⟩ = .ok rest ⟨after, out ++ written⟩) ∨
        ∃ stop, ∀ out,
          command fuel tokens ⟨engine, out⟩ = .error stop ⟨after, out ++ written⟩)) ∧
    (engine.Reachable → ∀ script, (engine.runWithin fuel script).engine.depth = 0) := by
  refine ⟨?_, fun hengine script => (hengine.run fuel script).depth_eq_zero⟩
  have houtbox {after : Engine S} (hevolves : engine.Evolves after) :
      engine.outbox <+: after.outbox := List.reverse_prefix.mpr hevolves.sent
  cases command_appends fuel tokens engine with
  | ok rest after written hevolves hresult =>
      exact ⟨after, written, hevolves.options, hevolves.depth, hevolves.inbox, houtbox hevolves,
        .inl ⟨rest, hresult⟩⟩
  | error stop after written hevolves hresult =>
      exact ⟨after, written, hevolves.options, hevolves.depth, hevolves.inbox, houtbox hevolves,
        .inr ⟨stop, hresult⟩⟩

/-- A run that fails inside a nested script leaves that script as well. -/
theorem Exec.depth_after_failing_run :
    (Engine.new Dictionary.empty {}).Reachable ∧
      ((Engine.new Dictionary.empty {}).runWithin 9 "@exec(\"b @div(1,0)\")").result.isOk = false ∧
      ((Engine.new Dictionary.empty {}).runWithin 9 "@exec(\"b @div(1,0)\")").engine.depth = 0 := by
  have hreachable : (Engine.new Dictionary.empty {}).Reachable := .new _ _
  have hfails : ((Engine.new Dictionary.empty {}).runWithin 9
      "@exec(\"b @div(1,0)\")").result.isOk = false := by decide +kernel
  exact ⟨hreachable, hfails, (command_adds_to_any_output 9 _ []).2 hreachable _⟩

end AtScript
