import AtScript.Engine.Run
import AtScript.Proofs.Guarded
import AtScript.Proofs.JudgementCommand

/-! # Refinement

A guarded computation *refines* a plain one when it never breaks and does what the plain one does,
unless it comes to a script that is too long. Refinement is handed on by the steps of which commands
are made. A plain computation that refines itself does not end in a defect, and none does.
-/

namespace AtScript

theorem Stop.map_ne_defect {ε δ : Type} {stop : Stop ε} (hstop : stop ≠ .defect) (change : ε → δ) :
    stop.map change ≠ .defect := by
  cases stop with
  | defect => exact absurd rfl hstop
  | _ => nofun

namespace Guarded

variable {S α β γ δ : Type}

/-! ## Refinement -/

/-- From one frame, a guarded computation does what a plain one does, unless it comes to a script
that is too long. It stays at its level either way. -/
inductive RefinesFrom (related : α → β → Prop) (guarded : Guarded S α) (plain : Exec S β)
    (frame : Frame S) : Prop
  | ok (value : α) (value' : β) (after : Frame S) (hvalue : related value value')
      (hlevel : frame.SameLevel after) (hguarded : guarded frame = .ok value after)
      (hplain : plain frame = .ok value' after)
  | error (stop : Stop RunError) (after : Frame S) (hstop : stop ≠ .defect)
      (hlevel : frame.SameLevel after) (hguarded : guarded frame = .error (.ofStop stop) after)
      (hplain : plain frame = .error stop after)
  | oversized (script : String) (after : Frame S) (hsize : UInt32.size ≤ script.utf8ByteSize)
      (hlevel : frame.SameLevel after) (hguarded : guarded frame = .error (.oversized script) after)

/-- A guarded computation does what a plain one does where `depth` scripts are running. -/
def Refines (depth : Nat) (related : α → β → Prop) (guarded : Guarded S α) (plain : Exec S β) :
    Prop :=
  ∀ frame, frame.engine.depth = depth → RefinesFrom related guarded plain frame

namespace Refines

variable {depth : Nat} {related : α → β → Prop} {guarded : Guarded S α} {plain : Exec S β}

theorem pure {value : α} {value' : β} (hvalue : related value value') :
    Refines (S := S) depth related (pure value) (pure value') :=
  fun frame _ => .ok value value' frame hvalue (.refl frame) rfl rfl

theorem outOfFuel : Refines (S := S) depth related (throw .outOfFuel) (throw .outOfFuel) :=
  fun frame _ => .error .outOfFuel frame nofun (.refl frame) rfl rfl

theorem tooLong : Refines (S := S) depth related (throw .tooLong) (throw .tooLong) :=
  fun frame _ => .error .tooLong frame nofun (.refl frame) rfl rfl

theorem fail (kind : ErrorKind) (span : Span) :
    Refines (S := S) depth related (Guarded.fail kind span) (Exec.fail kind span) :=
  fun frame _ => .error (.failed (.atSpan kind span)) frame nofun (.refl frame) rfl rfl

theorem mono (hrefines : Refines depth related guarded plain) {related' : α → β → Prop}
    (hrelated : ∀ value value', related value value' → related' value value') :
    Refines depth related' guarded plain := by
  intro frame hdepth
  cases hrefines frame hdepth with
  | ok value value' after hvalue hlevel hguarded hplain =>
      exact .ok value value' after (hrelated _ _ hvalue) hlevel hguarded hplain
  | error stop after hstop hlevel hguarded hplain =>
      exact .error stop after hstop hlevel hguarded hplain
  | oversized script after hsize hlevel hguarded =>
      exact .oversized script after hsize hlevel hguarded

theorem bind {result : γ → δ → Prop} {next : α → Guarded S γ} {next' : β → Exec S δ}
    (hrefines : Refines depth related guarded plain)
    (hnext : ∀ value value', related value value' →
      Refines depth result (next value) (next' value')) :
    Refines depth result (guarded >>= next) (plain >>= next') := by
  intro frame hdepth
  cases hrefines frame hdepth with
  | ok value value' middle hvalue hlevel hguarded hplain =>
      have hmiddle : middle.engine.depth = depth := hlevel.depth.trans hdepth
      have hfirst : (guarded >>= next) frame = next value middle := by
        simp only [Bind.bind, EStateM.bind, hguarded]
      have hsecond : (plain >>= next') frame = next' value' middle := by
        rw [Exec.bind_apply, hplain]
      cases hnext value value' hvalue middle hmiddle with
      | ok final final' after hfinal hlevel' hguarded hplain =>
          exact .ok final final' after hfinal (hlevel.trans hlevel') (hfirst.trans hguarded)
            (hsecond.trans hplain)
      | error stop after hstop hlevel' hguarded hplain =>
          exact .error stop after hstop (hlevel.trans hlevel') (hfirst.trans hguarded)
            (hsecond.trans hplain)
      | oversized script after hsize hlevel' hguarded =>
          exact .oversized script after hsize (hlevel.trans hlevel') (hfirst.trans hguarded)
  | error stop after hstop hlevel hguarded hplain =>
      refine .error stop after hstop hlevel ?_ ?_
      · simp only [Bind.bind, EStateM.bind, hguarded]
      · rw [Exec.bind_apply, hplain]
  | oversized script after hsize hlevel hguarded =>
      refine .oversized script after hsize hlevel ?_
      simp only [Bind.bind, EStateM.bind, hguarded]

theorem capture (hrefines : Refines depth related guarded plain) :
    Refines depth (fun value value' => related value.1 value'.1 ∧ value.2 = value'.2)
      (Guarded.capture guarded) (Exec.capture plain) := by
  rintro ⟨engine, out⟩ hdepth
  cases hrefines ⟨engine, ""⟩ hdepth with
  | ok value value' after hvalue hlevel hguarded hplain =>
      refine .ok (value, after.out) (value', after.out) ⟨after.engine, out⟩ ⟨hvalue, rfl⟩
        ⟨hlevel.options, hlevel.depth⟩ ?_ ?_
      · simp only [Guarded.capture, hguarded]
      · simp only [Exec.capture, hplain]
  | error stop after hstop hlevel hguarded hplain =>
      refine .error stop ⟨after.engine, out⟩ hstop ⟨hlevel.options, hlevel.depth⟩ ?_ ?_
      · simp only [Guarded.capture, hguarded]
      · simp only [Exec.capture, hplain]
  | oversized script after hsize hlevel hguarded =>
      refine .oversized script ⟨after.engine, out⟩ hsize ⟨hlevel.options, hlevel.depth⟩ ?_
      simp only [Guarded.capture, hguarded]

end Refines

/-! ## Computations without guards -/

theorem lift_pure (value : α) : lift (S := S) (pure value) = pure value := rfl

theorem lift_capture (action : Exec S α) :
    lift (Exec.capture action) = capture (lift action) := by
  funext frame
  simp only [lift, Exec.capture, capture]
  cases action ⟨frame.engine, ""⟩ <;> rfl

theorem lift_of_ok {action : Exec S α} {value : α} {frame after : Frame S}
    (haction : action frame = .ok value after) : lift action frame = .ok value after := by
  rw [lift, haction]

theorem lift_of_error {action : Exec S α} {stop : Stop RunError} {frame after : Frame S}
    (haction : action frame = .error stop after) :
    lift action frame = .error (.ofStop stop) after := by
  rw [lift, haction]

theorem lift_ne_oversized (action : Exec S α) {frame after : Frame S} {script : String} :
    lift action frame ≠ .error (.oversized script) after := by
  intro hresult
  rw [lift] at hresult
  split at hresult
  next => cases hresult
  next stop _ _ => cases stop <;> cases hresult

variable [Store S]

/-- That a plain computation refines itself, with guards only where it has them itself, is a
judgement: it says that the computation does not end in a defect. -/
def defectFree (places : Span → Prop) : Judgement S places where
  holds result action :=
    ∀ depth, Refines depth (fun value value' => value = value' ∧ result value) (lift action) action
  pure hvalue _ := .pure ⟨rfl, hvalue⟩
  bind haction hnext depth := by
    rw [lift_bind]
    refine (haction depth).bind ?_
    rintro value _ ⟨rfl, hvalue⟩
    exact hnext value hvalue depth
  fail _ _ _ := .fail _ _
  tooLong _ := .tooLong
  elementary haction _ := by
    intro frame _
    obtain ⟨after, hok, hlevel, -⟩ := haction.apply_eq_ok frame frame.engine.options
    exact .ok () () after ⟨rfl, trivial⟩ hlevel (lift_of_ok hok) hok
  store _ := fun frame _ =>
    .ok frame.engine.store frame.engine.store frame ⟨rfl, trivial⟩ (.refl frame) rfl rfl
  capture haction depth := by
    rw [lift_capture]
    refine (haction depth).capture.mono ?_
    rintro ⟨value, text⟩ ⟨value', text'⟩ ⟨⟨rfl, hvalue⟩, rfl⟩
    exact ⟨rfl, hvalue⟩

variable {depth : Nat}

theorem ofValue_refines (span : Span) (value : Except ValueError α) :
    Refines (S := S) depth Eq (lift (Exec.ofValue span value)) (Exec.ofValue span value) := by
  refine ((defectFree fun _ => True).ofValue trivial value depth).mono ?_
  exact fun _ _ hsame => hsame.1

theorem store_refines : Refines (S := S) depth Eq store Exec.store := by
  refine ((defectFree fun _ => True).store depth).mono ?_
  exact fun _ _ hsame => hsame.1

/-- A script does not end in a defect where its tokens do not. -/
theorem nested_defectFree (places : Span → Prop) (run : Runner S) (script : String)
    (htokens : (defectFree (Token.IsPlace script)).holds (fun _ => True)
      (Exec.sequenceAll run (Token.scan script))) :
    (defectFree places).holds (fun _ => True) (Exec.nested run script) := by
  intro depth frame hdepth
  cases hlimit : frame.exceededLimit? with
  | some limit =>
      have hplain := @Exec.nested_of_exceeded S run script frame limit hlimit
      exact .error (.failed _) frame nofun (.refl frame) (lift_of_error hplain) hplain
  | none =>
      cases htokens _ frame.enter rfl with
      | ok _ _ after _ hlevel _ hplain =>
          have hscript := Exec.nested_ok_of_sameLevel hlimit hplain hlevel
          exact .ok () () _ ⟨rfl, trivial⟩ hlevel.atDepth (lift_of_ok hscript) hscript
      | error stop after hstop hlevel _ hplain =>
          have hscript := Exec.nested_error_of_sameLevel hlimit hplain hlevel
          exact .error _ _ (Stop.map_ne_defect hstop _) hlevel.atDepth (lift_of_error hscript)
            hscript
      | oversized long after _ _ hguarded => exact absurd hguarded (lift_ne_oversized _)

end Guarded

/-- No run ends in a defect. -/
theorem Engine.runWithin_ne_defect {S : Type} [Store S] (fuel : Nat) (engine : Engine S)
    (script : String) :
    (engine.runWithin fuel script).result ≠ .error .defect := by
  rw [runWithin]
  split
  next => nofun
  next =>
    have htokens := Judgement.scanned (S := S) Guarded.defectFree
      (fun _ _ _ _ => .outOfFuel) Guarded.nested_defectFree fuel script
    have hscript := Guarded.nested_defectFree (fun _ => True) _ script htokens
    cases hscript _ ⟨engine, ""⟩ rfl with
    | ok _ _ after _ _ _ hplain =>
        rw [hplain]
        nofun
    | error stop after hstop _ _ hplain =>
        rw [hplain]
        intro hresult
        cases hresult
        exact hstop rfl
    | oversized long after _ _ hguarded => exact absurd hguarded (Guarded.lift_ne_oversized _)

end AtScript
