import Mathlib.Order.Filter.AtTopBot.Basic
import AtScript.Proofs.Fuel
import AtScript.Proofs.Progress
import AtScript.Store.Dictionary

/-! # Runs come to an end

Under a limit on the nesting of scripts every run ends: there is an amount of fuel from which on all
amounts give the same outcome, and the outcome is not for lack of fuel. A command works on fewer
tokens than it stands before, except where it runs a script, which takes one of the levels that are
left. So the proof is by induction on the levels and, for each, on the number of tokens.
-/

namespace AtScript

variable {S : Type}

/-! ## Levels -/

namespace Frame

/-- How many scripts a limit still allows to be entered, each inside the one before. -/
def levelsLeft (frame : Frame S) (limit : Nat) : Nat :=
  limit + 1 - frame.engine.depth

variable {frame after : Frame S} {limit : Nat}

theorem SameLevel.levelsLeft_eq (hlevel : frame.SameLevel after) (limit : Nat) :
    after.levelsLeft limit = frame.levelsLeft limit := by
  rw [levelsLeft, hlevel.depth, levelsLeft]

theorem exceededLimit?_of_levelsLeft (hlimit : frame.engine.options.maxDepth = some limit)
    (hlevels : frame.levelsLeft limit = 0) : frame.exceededLimit? = some limit := by
  rw [exceededLimit?_eq_some_iff]
  exact ⟨hlimit, Nat.le_of_sub_eq_zero hlevels⟩

/-- Entering a script takes one of the levels. -/
theorem levelsLeft_enter (hlimit : frame.engine.options.maxDepth = some limit)
    (hexceeded : frame.exceededLimit? = none) :
    frame.enter.levelsLeft limit + 1 = frame.levelsLeft limit := by
  have hdepth := exceededLimit?_eq_none_iff.mp hexceeded limit hlimit
  simp only [levelsLeft, enter]
  omega

end Frame

/-! ## Enough fuel -/

namespace Exec

open Filter

variable {α β : Type} {limit levels : Nat}

/-- From one frame, with enough fuel a computation always ends in the same way: it succeeds, or it
stops for good. -/
inductive SettlesFrom (result : α → Prop) (action : Nat → Exec S α) (frame : Frame S) : Prop
  | ok (value : α) (after : Frame S) (hvalue : result value) (hlevel : frame.SameLevel after)
      (haction : ∀ᶠ fuel in atTop, action fuel frame = .ok value after)
  | error (stop : Stop RunError) (after : Frame S) (hstop : stop.IsEnd)
      (hlevel : frame.SameLevel after)
      (haction : ∀ᶠ fuel in atTop, action fuel frame = .error stop after)

/-- A computation that settles from every frame with so many levels left. -/
def Settles (limit levels : Nat) (result : α → Prop) (action : Nat → Exec S α) : Prop :=
  ∀ frame, frame.engine.options.maxDepth = some limit → frame.levelsLeft limit = levels →
    SettlesFrom result action frame

namespace Settles

variable {result : α → Prop} {action : Nat → Exec S α}

theorem pure {value : α} (hvalue : result value) :
    Settles (S := S) limit levels result fun _ => pure value :=
  fun frame _ _ => .ok value frame hvalue (.refl frame) (.of_forall fun _ => rfl)

theorem throw {stop : Stop RunError} (hstop : stop.IsEnd) :
    Settles (S := S) limit levels result fun _ => throw stop :=
  fun frame _ _ => .error stop frame hstop (.refl frame) (.of_forall fun _ => rfl)

theorem bind {result' : β → Prop} {next : Nat → α → Exec S β}
    (haction : Settles limit levels result action)
    (hnext : ∀ value, result value → Settles limit levels result' fun fuel => next fuel value) :
    Settles limit levels result' fun fuel => action fuel >>= next fuel := by
  intro frame hlimit hlevels
  cases haction frame hlimit hlevels with
  | error stop after hstop hlevel hfirst =>
      refine .error stop after hstop hlevel ?_
      filter_upwards [hfirst] with fuel hfirst
      rw [bind_apply, hfirst]
  | ok value middle hvalue hlevel hfirst =>
      have hlimit' : middle.engine.options.maxDepth = some limit := by rw [hlevel.options, hlimit]
      have hlevels' := (hlevel.levelsLeft_eq limit).trans hlevels
      cases hnext value hvalue middle hlimit' hlevels' with
      | ok value' after hvalue' hlevel' hsecond =>
          refine .ok value' after hvalue' (hlevel.trans hlevel') ?_
          filter_upwards [hfirst, hsecond] with fuel hfirst hsecond
          rw [bind_apply, hfirst]
          exact hsecond
      | error stop after hstop hlevel' hsecond =>
          refine .error stop after hstop (hlevel.trans hlevel') ?_
          filter_upwards [hfirst, hsecond] with fuel hfirst hsecond
          rw [bind_apply, hfirst]
          exact hsecond

theorem elementary [Store S] {action : Exec S Unit} (haction : Elementary action) :
    Settles limit levels (fun _ => True) fun _ => action := by
  intro frame _ _
  obtain ⟨after, hok, hlevel, -⟩ := haction.apply_eq_ok frame frame.engine.options
  exact .ok () after trivial hlevel (.of_forall fun _ => hok)

theorem store : Settles (S := S) limit levels (fun _ => True) fun _ => store :=
  fun frame _ _ => .ok frame.engine.store frame trivial (.refl frame) (.of_forall fun _ => rfl)

theorem capture (haction : Settles limit levels result action) :
    Settles limit levels (fun value => result value.1) fun fuel => capture (action fuel) := by
  intro frame hlimit hlevels
  obtain ⟨engine, out⟩ := frame
  cases haction ⟨engine, ""⟩ hlimit hlevels with
  | ok value after hvalue hlevel haction =>
      refine .ok (value, after.out) ⟨after.engine, out⟩ hvalue ⟨hlevel.options, hlevel.depth⟩ ?_
      filter_upwards [haction] with fuel haction
      simp only [Exec.capture, haction]
  | error stop after hstop hlevel haction =>
      refine .error stop ⟨after.engine, out⟩ hstop ⟨hlevel.options, hlevel.depth⟩ ?_
      filter_upwards [haction] with fuel haction
      simp only [Exec.capture, haction]

/-- What holds of a family with enough fuel does not depend on the members with little. -/
theorem congr {other : Nat → Exec S α} (haction : Settles limit levels result action)
    (hother : ∀ᶠ fuel in atTop, other fuel = action fuel) :
    Settles limit levels result other := by
  intro frame hlimit hlevels
  cases haction frame hlimit hlevels with
  | ok value after hvalue hlevel haction =>
      refine .ok value after hvalue hlevel ?_
      filter_upwards [haction, hother] with fuel haction hother
      rw [hother, haction]
  | error stop after hstop hlevel haction =>
      refine .error stop after hstop hlevel ?_
      filter_upwards [haction, hother] with fuel haction hother
      rw [hother, haction]

/-- The first amounts of fuel do not matter. -/
theorem of_succ (haction : Settles limit levels result fun fuel => action (fuel + 1)) :
    Settles limit levels result action := by
  have hshift {frame : Frame S} {ending : EStateM.Result (Stop RunError) (Frame S) α}
      (hending : ∀ᶠ fuel in atTop, action (fuel + 1) frame = ending) :
      ∀ᶠ fuel in atTop, action fuel frame = ending := by
    rw [← map_add_atTop_eq_nat 1, eventually_map]
    exact hending
  intro frame hlimit hlevels
  cases haction frame hlimit hlevels with
  | ok value after hvalue hlevel haction => exact .ok value after hvalue hlevel (hshift haction)
  | error stop after hstop hlevel haction =>
      exact .error stop after hstop hlevel (hshift haction)

variable [Store S]

/-- Settling is a judgement on the families of computations that differ in their fuel. -/
def family (limit levels : Nat) : FamilyJudgement S (fun _ => True) Nat where
  holds result action := Settles limit levels result action
  affords budget count := ∀ᶠ fuel in atTop, count ≤ budget fuel
  pure := .pure
  bind := .bind
  fail _ _ := .throw trivial
  tooLong := .throw trivial
  elementary := .elementary
  store := .store
  capture := .capture
  affords_steady _ := .of_forall fun _ => Nat.le_refl _
  spend action budget count _ hbudget hnext := by
    have hleft : ∀ᶠ fuel in atTop, count ≤ budget fuel - 1 := by
      filter_upwards [hbudget] with fuel hbudget
      exact Nat.le_sub_of_add_le hbudget
    -- With enough fuel the budget is one more than what the step leaves of it.
    refine congr (hnext (fun fuel => budget fuel - 1) hleft) ?_
    filter_upwards [hbudget] with fuel hbudget
    rw [Nat.sub_add_cancel (Nat.le_of_add_left_le hbudget)]

end Settles

/-! ## Commands and scripts -/

section

variable {run : Nat → Runner S} {script : String}

/-- Without a level left, a script is not run. -/
theorem nested_settles_zero :
    Settles limit 0 (fun _ => True) fun fuel => nested (run fuel) script := by
  intro frame hlimit hlevels
  have hexceeded := Frame.exceededLimit?_of_levelsLeft hlimit hlevels
  have hfails (fuel : Nat) : nested (run fuel) script frame = _ :=
    nested_of_exceeded (run fuel) hexceeded
  exact .error (.failed _) frame trivial (.refl frame) (.of_forall hfails)

/-- A script takes one level, and its tokens have the rest. -/
theorem nested_settles_succ
    (hscript : Settles limit levels (fun _ => True) fun fuel =>
      sequenceAll (run fuel) (Token.scan script)) :
    Settles limit (levels + 1) (fun _ => True) fun fuel => nested (run fuel) script := by
  intro frame hlimit hlevels
  have hexceeded : frame.exceededLimit? = none := by
    rw [Frame.exceededLimit?_eq_none_iff]
    intro other hother
    rw [hlimit] at hother
    cases hother
    rw [Frame.levelsLeft] at hlevels
    omega
  have henter : frame.enter.levelsLeft limit = levels :=
    Nat.succ.inj ((Frame.levelsLeft_enter hlimit hexceeded).trans hlevels)
  cases hscript frame.enter hlimit henter with
  | ok value after _ hlevel hok =>
      refine .ok () _ trivial hlevel.atDepth ?_
      filter_upwards [hok] with fuel hok
      exact nested_ok_of_sameLevel hexceeded hok hlevel
  | error stop after hstop hlevel herror =>
      refine .error (stop.map (·.inScript script)) _ (hstop.map _) hlevel.atDepth ?_
      filter_upwards [herror] with fuel herror
      exact nested_error_of_sameLevel hexceeded herror hlevel

end

variable [Store S]

/-- Commands settle if scripts do, by induction on the number of tokens. -/
theorem command_settles
    (hscripts : (Settles.family (S := S) limit levels).CoversScripts command) (count : Nat) :
    (Settles.family (S := S) limit levels).Covers count command := by
  induction count with
  | zero => exact fun _ _ hlength => absurd hlength (Nat.not_lt_zero _)
  | succ count ih =>
      intro token rest hlength hplaced
      -- A command has one unit of fuel more than the commands in it.
      refine Settles.of_succ ?_
      have hrun := ih.of_le (Nat.le_of_lt_succ hlength)
      exact FamilyJudgement.commandWith hscripts hrun hplaced (eventually_ge_atTop _)

/-- Every script settles, by induction on the levels that are left. -/
theorem script_settles (limit levels : Nat) (script : String) :
    Settles (S := S) limit levels (fun _ => True) fun fuel => nested (command fuel) script := by
  induction levels generalizing script with
  | zero => exact nested_settles_zero
  | succ levels ih =>
      refine nested_settles_succ ?_
      exact FamilyJudgement.sequenceAll (command_settles ih _) fun _ _ => trivial

end Exec

/-! ## Whole runs -/

namespace Engine

variable [Store S]

/-- Under a limit, all large amounts of fuel give a run the same outcome, and it is an end. -/
theorem exists_outcome_of_limit {engine : Engine S} {limit : Nat}
    (hlimit : engine.options.maxDepth = some limit) (script : String) :
    ∃ outcome : Outcome S, outcome.Ended ∧
      ∃ enough, ∀ fuel, enough ≤ fuel → engine.runWithin fuel script = outcome := by
  by_cases hnull : Value.isNull script = true
  · refine ⟨⟨engine, none, .ok ()⟩, Outcome.ended_of_ok rfl, 0, ?_⟩
    intro fuel _
    rw [runWithin, if_pos hnull]
  · cases Exec.script_settles limit _ script ⟨engine, ""⟩ hlimit rfl with
    | ok value after _ _ haction =>
        obtain ⟨enough, henough⟩ := Filter.eventually_atTop.mp haction
        refine ⟨⟨after.engine, some after.out, .ok ()⟩, Outcome.ended_of_ok rfl, enough, ?_⟩
        intro fuel hfuel
        rw [runWithin, if_neg hnull, henough fuel hfuel]
    | error stop after hstop _ haction =>
        obtain ⟨enough, henough⟩ := Filter.eventually_atTop.mp haction
        refine ⟨⟨after.engine, some after.out, .error stop⟩, Outcome.ended_of_stop rfl hstop,
          enough, ?_⟩
        intro fuel hfuel
        rw [runWithin, if_neg hnull, henough fuel hfuel]

/-- Under a limit every run ends. A command that succeeds takes a token and leaves an end of the
others; the body of a loop has fewer tokens than there were; and a script fails for its depth or
takes one of the levels that are left, of which there are at most one more than the limit. -/
theorem run_ends_under_limit {engine : Engine S} {limit : Nat}
    (hlimit : engine.options.maxDepth = some limit) (script : String) :
    (∃ outcome : Outcome S, outcome.Ended ∧
      ∃ enough, ∀ fuel, enough ≤ fuel → engine.runWithin fuel script = outcome) ∧
    (∀ fuel token rest left (frame after : Frame S),
      Exec.command fuel (token :: rest) frame = .ok left after → left <:+ rest) ∧
    (∀ family tokens body after name value,
      Nesting.loopBody? family tokens = some (body, after) →
        (Exec.substitute name value body).length < tokens.length) ∧
    ∀ (run : Runner S) (other : String) (frame : Frame S),
      frame.engine.options.maxDepth = some limit →
        frame.levelsLeft limit ≤ limit + 1 ∧
          (Exec.nested run other frame = .error (.failed ⟨.tooDeep limit, none, [other]⟩) frame ∨
            frame.enter.levelsLeft limit + 1 = frame.levelsLeft limit) := by
  refine ⟨exists_outcome_of_limit hlimit script, ?_, ?_, ?_⟩
  · intro fuel token rest left frame after hok
    exact (Exec.command_advances fuel token rest).of_ok hok
  · intro family tokens body after name value hfound
    rw [Exec.substitute, List.length_map]
    exact Nesting.length_lt_of_loopBody? hfound
  · intro run other frame hframe
    refine ⟨Nat.sub_le _ _, ?_⟩
    cases hexceeded : frame.exceededLimit? with
    | none => exact .inr (Frame.levelsLeft_enter hframe hexceeded)
    | some exceeded =>
        obtain ⟨hsame, -⟩ := Frame.exceededLimit?_eq_some_iff.mp hexceeded
        obtain rfl := Option.some.inj (hsame.symm.trans hframe)
        exact .inl (Exec.nested_of_exceeded run hexceeded)

/-- A stored script that runs itself ends, because it is nested too deeply. -/
theorem self_reference_ends :
    let engine := ((Engine.new Dictionary.empty { maxDepth := some 5 }).runWithin 9
      "@set(loop,\"@script(loop)\")").engine
    engine.options.maxDepth = some 5 ∧
      (engine.runWithin 20 "@script(loop)").result =
        .error (.failed ⟨.tooDeep 5, none, List.replicate 7 "@script(loop)"⟩) ∧
      ∃ outcome : Outcome Dictionary, outcome.Ended ∧
        ∃ enough, ∀ fuel, enough ≤ fuel → engine.runWithin fuel "@script(loop)" = outcome := by
  intro engine
  have hlimit : engine.options.maxDepth = some 5 := by decide +kernel
  have hresult : (engine.runWithin 20 "@script(loop)").result =
      .error (.failed ⟨.tooDeep 5, none, List.replicate 7 "@script(loop)"⟩) := by decide +kernel
  exact ⟨hlimit, hresult, (run_ends_under_limit hlimit "@script(loop)").1⟩

end Engine

end AtScript
