import AtScript.Proofs.Fuel
import AtScript.Proofs.JudgementCommand
import AtScript.Store.Dictionary

/-! # The limit on nesting

A limit on the nesting of scripts has one effect: a script that would exceed it fails. A run that
does not fail for that reason does the same under a wider limit and under none.
-/

namespace AtScript

variable {S : Type}

/-- An engine with another limit on the nesting of scripts. -/
def Engine.withLimit (engine : Engine S) (limit : Option Nat) : Engine S :=
  { engine with options := { engine.options with maxDepth := limit } }

/-- Whether a limit allows all that the limit `limit` allows. -/
def WiderThan (limit : Nat) (wider : Option Nat) : Prop :=
  ∀ other, wider = some other → limit ≤ other

namespace Frame

/-- A frame whose engine has another limit. -/
def withLimit (frame : Frame S) (limit : Option Nat) : Frame S :=
  ⟨frame.engine.withLimit limit, frame.out⟩

theorem SameLevel.withLimit {frame after : Frame S} (hlevel : frame.SameLevel after)
    (limit : Option Nat) : (frame.withLimit limit).SameLevel (after.withLimit limit) where
  options := by simp only [Frame.withLimit, Engine.withLimit, hlevel.options]
  depth := hlevel.depth

end Frame

/-- Whether a computation stops because scripts are nested too deeply. -/
def Stop.isTooDeep : Stop RunError → Bool
  | .failed error => error.kind.isTooDeep
  | _ => false

theorem Stop.isTooDeep_inScript (stop : Stop RunError) (script : String) :
    (stop.map (·.inScript script)).isTooDeep = stop.isTooDeep := by
  cases stop <;> rfl

namespace Exec

variable {α β : Type} {limit : Nat} {wider : Option Nat}

/-- From one frame, a computation does the same under another limit, or it fails for its depth. -/
inductive UnhinderedFrom (wider : Option Nat) (result : α → Prop) (action : Exec S α)
    (frame : Frame S) : Prop
  | ok (value : α) (after : Frame S) (hvalue : result value) (hlevel : frame.SameLevel after)
      (haction : action frame = .ok value after)
      (hwider : action (frame.withLimit wider) = .ok value (after.withLimit wider))
  | error (stop : Stop RunError) (after : Frame S) (hlevel : frame.SameLevel after)
      (haction : action frame = .error stop after)
      (hwider : action (frame.withLimit wider) = .error stop (after.withLimit wider))
  | tooDeep (stop : Stop RunError) (after : Frame S) (hlevel : frame.SameLevel after)
      (haction : action frame = .error stop after) (hstop : stop.isTooDeep = true)

/-- A computation that does under the limit `wider` what it does under `limit`, unless it fails for
its depth. -/
def Unhindered (limit : Nat) (wider : Option Nat) (result : α → Prop) (action : Exec S α) : Prop :=
  ∀ frame, frame.engine.options.maxDepth = some limit → UnhinderedFrom wider result action frame

namespace Unhindered

variable {result : α → Prop} {action : Exec S α}

theorem pure {value : α} (hvalue : result value) :
    Unhindered (S := S) limit wider result (pure value) :=
  fun frame _ => .ok value frame hvalue (.refl frame) rfl rfl

theorem throw (stop : Stop RunError) :
    Unhindered (S := S) limit wider result (throw stop) :=
  fun frame _ => .error stop frame (.refl frame) rfl rfl

theorem bind {result' : β → Prop} {next : α → Exec S β}
    (haction : Unhindered limit wider result action)
    (hnext : ∀ value, result value → Unhindered limit wider result' (next value)) :
    Unhindered limit wider result' (action >>= next) := by
  intro frame hframe
  cases haction frame hframe with
  | error stop after hlevel haction hwider =>
      refine .error stop after hlevel ?_ ?_
      · rw [bind_apply, haction]
      · rw [bind_apply, hwider]
  | tooDeep stop after hlevel haction hstop =>
      refine .tooDeep stop after hlevel ?_ hstop
      rw [bind_apply, haction]
  | ok value middle hvalue hlevel haction hwider =>
      have hbind : (action >>= next) frame = next value middle := by rw [bind_apply, haction]
      have hbind' : (action >>= next) (frame.withLimit wider) =
          next value (middle.withLimit wider) := by rw [bind_apply, hwider]
      have hmiddle : middle.engine.options.maxDepth = some limit := by rw [hlevel.options, hframe]
      cases hnext value hvalue middle hmiddle with
      | ok value' after hvalue' hlevel' haction' hwider' =>
          exact .ok value' after hvalue' (hlevel.trans hlevel') (hbind.trans haction')
            (hbind'.trans hwider')
      | error stop after hlevel' haction' hwider' =>
          exact .error stop after (hlevel.trans hlevel') (hbind.trans haction')
            (hbind'.trans hwider')
      | tooDeep stop after hlevel' haction' hstop =>
          exact .tooDeep stop after (hlevel.trans hlevel') (hbind.trans haction') hstop

theorem elementary [Store S] {action : Exec S Unit} (haction : Elementary action) :
    Unhindered limit wider (fun _ => True) action := by
  intro frame _
  obtain ⟨after, hok, hlevel, hother⟩ :=
    haction.apply_eq_ok frame (frame.engine.withLimit wider).options
  have hafter : after.withOptions (frame.engine.withLimit wider).options =
      after.withLimit wider := by
    simp only [Frame.withOptions, Frame.withLimit, Engine.withLimit, hlevel.options]
  rw [hafter] at hother
  exact .ok () after trivial hlevel hok hother

theorem capture (haction : Unhindered limit wider result action) :
    Unhindered limit wider (fun value => result value.1) (capture action) := by
  rintro ⟨engine, out⟩ hframe
  cases haction ⟨engine, ""⟩ hframe with
  | ok value after hvalue hlevel haction hwider =>
      refine .ok (value, after.out) ⟨after.engine, out⟩ hvalue ⟨hlevel.options, hlevel.depth⟩ ?_ ?_
      · simp only [Exec.capture, haction]
      · simp only [Frame.withLimit] at hwider
        simp only [Exec.capture, Frame.withLimit, hwider]
  | error stop after hlevel haction hwider =>
      refine .error stop ⟨after.engine, out⟩ ⟨hlevel.options, hlevel.depth⟩ ?_ ?_
      · simp only [Exec.capture, haction]
      · simp only [Frame.withLimit] at hwider
        simp only [Exec.capture, Frame.withLimit, hwider]
  | tooDeep stop after hlevel haction hstop =>
      refine .tooDeep stop ⟨after.engine, out⟩ ⟨hlevel.options, hlevel.depth⟩ ?_ hstop
      simp only [Exec.capture, haction]

/-- The limit is asked where a script is entered, and only there. -/
theorem nested (hwide : WiderThan limit wider) {run : Runner S} {script : String}
    (hscript : Unhindered limit wider (fun _ => True) (sequenceAll run (Token.scan script))) :
    Unhindered limit wider (fun _ => True) (nested run script) := by
  intro frame hframe
  cases hexceeded : frame.exceededLimit? with
  | some other => exact .tooDeep _ frame (.refl frame) (nested_of_exceeded run hexceeded) rfl
  | none =>
      have hdepth : frame.engine.depth ≤ limit :=
        Frame.exceededLimit?_eq_none_iff.mp hexceeded limit hframe
      have hexceeded' : (frame.withLimit wider).exceededLimit? = none := by
        rw [Frame.exceededLimit?_eq_none_iff]
        exact fun other hother => Nat.le_trans hdepth (hwide other hother)
      cases hscript frame.enter hframe with
      | ok value after _ hlevel hok hwider =>
          refine .ok () _ trivial hlevel.atDepth (nested_ok_of_sameLevel hexceeded hok hlevel) ?_
          exact nested_ok_of_sameLevel hexceeded' hwider (hlevel.withLimit wider)
      | error stop after hlevel hstop hwider =>
          refine .error _ _ hlevel.atDepth (nested_error_of_sameLevel hexceeded hstop hlevel) ?_
          exact nested_error_of_sameLevel hexceeded' hwider (hlevel.withLimit wider)
      | tooDeep stop after hlevel hstop htooDeep =>
          refine .tooDeep _ _ hlevel.atDepth (nested_error_of_sameLevel hexceeded hstop hlevel) ?_
          rw [Stop.isTooDeep_inScript, htooDeep]

variable [Store S]

/-- Doing the same under a wider limit is a judgement. -/
def judgement (limit : Nat) (wider : Option Nat) (places : Span → Prop) : Judgement S places where
  holds result action := Unhindered limit wider result action
  pure := .pure
  bind := .bind
  fail _ _ := .throw _
  tooLong := .throw _
  elementary := .elementary
  store := fun frame _ => .ok frame.engine.store frame trivial (.refl frame) rfl rfl
  capture := .capture

/-- Every script does the same under a wider limit. -/
theorem script (hwide : WiderThan limit wider) (fuel : Nat) (script : String) :
    Unhindered (S := S) limit wider (fun _ => True) (Exec.nested (command fuel) script) :=
  nested hwide <| Judgement.scanned (judgement limit wider) (fun _ _ _ => throw _)
    (fun _ _ _ hscript => nested hwide hscript) fuel script

end Unhindered

end Exec

/-! ## Whole runs -/

variable [Store S]

/-- An outcome whose engine has another limit. -/
def Outcome.withLimit (outcome : Outcome S) (limit : Option Nat) : Outcome S :=
  { outcome with engine := outcome.engine.withLimit limit }

/-- A run fails for its depth, or it does the same under a wider limit. -/
theorem Engine.runWithin_withLimit {engine : Engine S} {limit : Nat}
    (hlimit : engine.options.maxDepth = some limit) {wider : Option Nat}
    (hwide : WiderThan limit wider) (fuel : Nat) (script : String) :
    (∃ stop, (engine.runWithin fuel script).result = .error stop ∧ stop.isTooDeep = true) ∨
      (engine.withLimit wider).runWithin fuel script =
        (engine.runWithin fuel script).withLimit wider := by
  simp only [runWithin]
  split
  next => exact .inr rfl
  next =>
    cases Exec.Unhindered.script hwide fuel script ⟨engine, ""⟩ hlimit with
    | ok value after _ _ hok hwider =>
        simp only [Frame.withLimit] at hwider
        simp only [hok, hwider]
        exact .inr rfl
    | error stop after _ hstop hwider =>
        simp only [Frame.withLimit] at hwider
        simp only [hstop, hwider]
        exact .inr rfl
    | tooDeep stop after _ hstop htooDeep =>
        rw [hstop]
        exact .inl ⟨stop, rfl, htooDeep⟩

/-- A run that succeeds, or fails for another reason than its depth, ends with the same output, the
same result and the same engine under a wider limit and under none. -/
theorem Engine.wider_limit_keeps_outcome {engine : Engine S} {limit : Nat}
    (hlimit : engine.options.maxDepth = some limit) {wider : Option Nat}
    (hwide : WiderThan limit wider) {fuel : Nat} {script : String}
    (hended : (engine.runWithin fuel script).Ended)
    (hkind : ∀ error, (engine.runWithin fuel script).result = .error (.failed error) →
      error.kind.isTooDeep = false) {more : Nat} (hmore : fuel ≤ more) :
    (engine.withLimit wider).runWithin more script =
      (engine.runWithin fuel script).withLimit wider := by
  rcases runWithin_withLimit hlimit hwide fuel script with ⟨stop, hstop, htooDeep⟩ | hsame
  · cases stop with
    | failed error =>
        rw [Stop.isTooDeep, hkind error hstop] at htooDeep
        cases htooDeep
    | outOfFuel | tooLong | defect => cases htooDeep
  · rw [runWithin_of_le _ hmore, hsame]
    rw [hsame]
    exact hended

/-- A division by zero in a script that the limit just allows fails alike without a limit. -/
theorem Engine.division_without_limit :
    let engine := Engine.new Dictionary.empty { maxDepth := some 1 }
    let script := "a @exec(\"b @div(1,0)\")"
    (engine.runWithin 9 script).result =
        .error (.failed ⟨.divisionByZero, some ⟨2, 5⟩, [script, "b @div(1,0)"]⟩) ∧
      WiderThan 1 none ∧
      (engine.withLimit none).runWithin 20 script =
        (engine.runWithin 9 script).withLimit none := by
  intro engine script
  have hresult : (engine.runWithin 9 script).result =
      .error (.failed ⟨.divisionByZero, some ⟨2, 5⟩, [script, "b @div(1,0)"]⟩) := by decide +kernel
  have hwide : WiderThan 1 none := nofun
  have hended : (engine.runWithin 9 script).Ended := Outcome.ended_of_failed hresult
  refine ⟨hresult, hwide, wider_limit_keeps_outcome rfl hwide hended ?_ (by decide)⟩
  intro error herror
  rw [hresult] at herror
  cases herror
  rfl

end AtScript
