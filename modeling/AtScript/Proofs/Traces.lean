import AtScript.Proofs.Output
import AtScript.Proofs.Spans

/-! # Where errors come from

An error records the scripts that it leaves and, unless scripts are nested too deeply, a token of
the innermost one. How an error comes about is described by a relation, `Failure`, which has a rule
for each way; every error of a run obeys it.
-/

namespace AtScript

/-! ## How a script fails -/

/-- How a script that is started with `depth` scripts running around it fails under a limit. -/
inductive Failure (limit : Option Nat) : Nat → String → RunError → Prop
  /-- It would be nested too deeply and is not run. -/
  | tooDeep {depth most : Nat} {script : String} (hlimit : limit = some most)
      (hdepth : most < depth) : Failure limit depth script ⟨.tooDeep most, none, [script]⟩
  /-- It fails at one of its tokens. -/
  | here {depth : Nat} {script : String} {kind : ErrorKind} {span : Span}
      (hdepth : ∀ most, limit = some most → depth ≤ most) (hplace : Token.IsPlace script span)
      (hkind : kind.isTooDeep = false) :
      Failure limit depth script ((RunError.atSpan kind span).inScript script)
  /-- A script that it runs fails. -/
  | inner {depth : Nat} {script other : String} {error : RunError}
      (hdepth : ∀ most, limit = some most → depth ≤ most)
      (hinner : Failure limit (depth + 1) other error) :
      Failure limit depth script (error.inScript script)

namespace Failure

variable {limit : Option Nat} {depth : Nat} {script : String} {error : RunError}

/-- The outermost script is the one that was run. -/
theorem getLast?_scripts (hfailure : Failure limit depth script error) :
    error.scripts.getLast? = some script := by
  cases hfailure with
  | tooDeep => rfl
  | here => rfl
  | inner => rw [RunError.scripts_inScript, List.getLast?_concat]

/-- An error has a place unless scripts are nested too deeply. -/
theorem span_eq_none_iff (hfailure : Failure limit depth script error) :
    error.span = none ↔ error.kind.isTooDeep = true := by
  induction hfailure with
  | tooDeep => exact ⟨fun _ => rfl, fun _ => rfl⟩
  | here hdepth hplace hkind => simp [RunError.inScript, RunError.atSpan, hkind]
  | inner hdepth hinner ih => exact ih

/-- The place of an error is that of a token of the innermost script. -/
theorem exists_place (hfailure : Failure limit depth script error)
    (hkind : error.kind.isTooDeep = false) :
    ∃ innermost span, error.scripts.head? = some innermost ∧ error.span = some span ∧
      Token.IsPlace innermost span := by
  induction hfailure with
  | tooDeep => cases hkind
  | @here depth script kind span hdepth hplace hkind => exact ⟨script, span, rfl, rfl, hplace⟩
  | inner hdepth hinner ih =>
      obtain ⟨innermost, span, hhead, hspan, hplace⟩ := ih hkind
      refine ⟨innermost, span, ?_, hspan, hplace⟩
      rw [RunError.scripts_inScript, List.head?_append, hhead, Option.some_or]

/-- Under a limit, an error leaves as many scripts as can be running, and one more if it arises
where the limit would be exceeded. -/
theorem length_scripts {most : Nat} (hfailure : Failure (some most) depth script error)
    (hdepth : depth ≤ most + 1) :
    error.scripts.length + depth ≤ most + 2 ∧
      (error.scripts.length + depth = most + 2 ↔ error.kind.isTooDeep = true) := by
  induction hfailure with
  | tooDeep hlimit hexceeded =>
      cases hlimit
      simp [RunError.scripts, ErrorKind.isTooDeep]
      omega
  | here hallowed hplace hkind =>
      have hle := hallowed most rfl
      simp [RunError.scripts, RunError.inScript, RunError.atSpan, hkind]
      omega
  | @inner depth script other error hallowed hinner ih =>
      have hle := hallowed most rfl
      obtain ⟨hlength, hiff⟩ := ih (by omega)
      have hkind : (error.inScript script).kind = error.kind := rfl
      rw [RunError.scripts_inScript, List.length_append, List.length_singleton, hkind, ← hiff]
      omega

end Failure

variable {S : Type}

/-- How a command fails in a frame: at one of some places, or in a script that it runs. -/
inductive Frame.Fails (frame : Frame S) (places : Span → Prop) : RunError → Prop
  | here {kind : ErrorKind} {span : Span} (hplace : places span) (hkind : kind.isTooDeep = false) :
      Fails frame places (.atSpan kind span)
  | inner {script : String} {error : RunError}
      (hinner : Failure frame.engine.options.maxDepth frame.engine.depth script error) :
      Fails frame places error

theorem Frame.Fails.of_sameLevel {frame after : Frame S} {places : Span → Prop} {error : RunError}
    (hfails : after.Fails places error) (hlevel : frame.SameLevel after) :
    frame.Fails places error := by
  cases hfails with
  | here hplace hkind => exact .here hplace hkind
  | inner hinner =>
      rw [hlevel.options, hlevel.depth] at hinner
      exact .inner hinner

namespace Exec

variable {α β : Type} {places : Span → Prop}

/-- From one frame, a computation stays at its level, and its errors come about as those of commands
do. -/
inductive TracedFrom (places : Span → Prop) (result : α → Prop) (action : Exec S α)
    (frame : Frame S) : Prop
  | ok (value : α) (after : Frame S) (hvalue : result value) (hlevel : frame.SameLevel after)
      (haction : action frame = .ok value after)
  | error (stop : Stop RunError) (after : Frame S) (hlevel : frame.SameLevel after)
      (haction : action frame = .error stop after)
      (hfails : ∀ error, stop = .failed error → frame.Fails places error)

/-- A computation whose errors come about as those of commands do. -/
def Traced (places : Span → Prop) (result : α → Prop) (action : Exec S α) : Prop :=
  ∀ frame, TracedFrom places result action frame

namespace Traced

variable {result : α → Prop} {action : Exec S α}

theorem pure {value : α} (hvalue : result value) : Traced (S := S) places result (pure value) :=
  fun frame => .ok value frame hvalue (.refl frame) rfl

theorem throw {stop : Stop RunError} (hstop : ∀ error, stop ≠ .failed error) :
    Traced (S := S) places result (throw stop) :=
  fun frame => .error stop frame (.refl frame) rfl fun error herror => absurd herror (hstop error)

theorem fail {kind : ErrorKind} {span : Span} (hplace : places span)
    (hkind : kind.isTooDeep = false) : Traced (S := S) places result (fail kind span) := by
  intro frame
  refine .error _ frame (.refl frame) rfl ?_
  intro error herror
  cases herror
  exact .here hplace hkind

theorem bind {result' : β → Prop} {next : α → Exec S β} (haction : Traced places result action)
    (hnext : ∀ value, result value → Traced places result' (next value)) :
    Traced places result' (action >>= next) := by
  intro frame
  cases haction frame with
  | error stop after hlevel haction hfails =>
      refine .error stop after hlevel ?_ hfails
      rw [bind_apply, haction]
  | ok value middle hvalue hlevel haction =>
      have hbind : (action >>= next) frame = next value middle := by rw [bind_apply, haction]
      cases hnext value hvalue middle with
      | ok value' after hvalue' hlevel' haction' =>
          exact .ok value' after hvalue' (hlevel.trans hlevel') (hbind.trans haction')
      | error stop after hlevel' haction' hfails =>
          refine .error stop after (hlevel.trans hlevel') (hbind.trans haction') ?_
          exact fun error herror => (hfails error herror).of_sameLevel hlevel

theorem elementary [Store S] {action : Exec S Unit} (haction : Elementary action) :
    Traced places (fun _ => True) action := by
  intro frame
  obtain ⟨after, hok, hlevel, -⟩ := haction.apply_eq_ok frame frame.engine.options
  exact .ok () after trivial hlevel hok

theorem capture (haction : Traced places result action) :
    Traced places (fun value => result value.1) (capture action) := by
  rintro ⟨engine, out⟩
  cases haction ⟨engine, ""⟩ with
  | ok value after hvalue hlevel haction =>
      refine .ok (value, after.out) ⟨after.engine, out⟩ hvalue ⟨hlevel.options, hlevel.depth⟩ ?_
      simp only [Exec.capture, haction]
  | error stop after hlevel haction hfails =>
      refine .error stop ⟨after.engine, out⟩ ⟨hlevel.options, hlevel.depth⟩ ?_ ?_
      · simp only [Exec.capture, haction]
      · intro error herror
        exact (hfails error herror).of_sameLevel ⟨rfl, rfl⟩

/-- A script hands on the errors of its tokens and records that they leave it. -/
theorem failure_of_nested {run : Runner S} {script : String}
    (hscript : Traced (Token.IsPlace script) (fun _ => True)
      (sequenceAll run (Token.scan script))) {frame after : Frame S} {error : RunError}
    (herror : Exec.nested run script frame = .error (.failed error) after) :
    Failure frame.engine.options.maxDepth frame.engine.depth script error := by
  cases hexceeded : frame.exceededLimit? with
  | some most =>
      obtain ⟨hlimit, hdepth⟩ := Frame.exceededLimit?_eq_some_iff.mp hexceeded
      rw [nested_of_exceeded run hexceeded] at herror
      cases herror
      exact .tooDeep hlimit hdepth
  | none =>
      have hallowed := Frame.exceededLimit?_eq_none_iff.mp hexceeded
      cases hscript frame.enter with
      | ok value inside _ hlevel hok =>
          rw [nested_ok_of_sameLevel hexceeded hok hlevel] at herror
          cases herror
      | error stop inside hlevel hstop hfails =>
          rw [nested_error_of_sameLevel hexceeded hstop hlevel] at herror
          cases stop with
          | outOfFuel | tooLong | defect => cases herror
          | failed inner =>
              cases herror
              cases hfails inner rfl with
              | here hplace hkind => exact .here hallowed hplace hkind
              | inner hinner => exact .inner hallowed hinner

theorem nested {run : Runner S} {script : String}
    (hscript : Traced (Token.IsPlace script) (fun _ => True)
      (sequenceAll run (Token.scan script))) :
    Traced places (fun _ => True) (nested run script) := by
  intro frame
  have hfails {stop : Stop RunError} {after : Frame S}
      (hstop : Exec.nested run script frame = .error stop after) :
      ∀ error, stop = .failed error → frame.Fails places error := by
    intro error herror
    rw [herror] at hstop
    exact .inner (failure_of_nested hscript hstop)
  cases hexceeded : frame.exceededLimit? with
  | some most =>
      have hstop : Exec.nested run script frame = _ := nested_of_exceeded run hexceeded
      exact .error _ frame (.refl frame) hstop (hfails hstop)
  | none =>
      cases hscript frame.enter with
      | ok value after _ hlevel hok =>
          exact .ok () _ trivial hlevel.atDepth (nested_ok_of_sameLevel hexceeded hok hlevel)
      | error stop after hlevel hstop _ =>
          have hstop := nested_error_of_sameLevel hexceeded hstop hlevel
          exact .error _ _ hlevel.atDepth hstop (hfails hstop)

variable [Store S]

/-- Failing in one of the known ways is a judgement. -/
def judgement (places : Span → Prop) : Judgement S places where
  holds result action := Traced places result action
  pure := .pure
  bind := .bind
  fail := .fail
  tooLong := .throw nofun
  elementary := .elementary
  store := fun frame => .ok frame.engine.store frame trivial (.refl frame) rfl
  capture := .capture

/-- The tokens of every script fail in one of the known ways. -/
theorem scanned (fuel : Nat) (script : String) :
    Traced (S := S) (Token.IsPlace script) (fun _ => True)
      (sequenceAll (command fuel) (Token.scan script)) :=
  Judgement.scanned judgement (fun _ _ _ => throw nofun) (fun _ _ _ => nested) fuel script

end Traced

end Exec

/-! ## Whole runs -/

namespace Engine

variable [Store S]

/-- Every error of a run comes about in one of the ways in which scripts fail. -/
theorem failure_of_runWithin {engine : Engine S} {fuel : Nat} {script : String} {error : RunError}
    (herror : (engine.runWithin fuel script).result = .error (.failed error)) :
    Failure engine.options.maxDepth engine.depth script error := by
  rw [runWithin] at herror
  split at herror
  next => cases herror
  next =>
    cases hrun : Exec.nested (Exec.command fuel) script ⟨engine, ""⟩ with
    | ok value after =>
        rw [hrun] at herror
        cases herror
    | error stop after =>
        rw [hrun] at herror
        cases herror
        exact Exec.Traced.failure_of_nested (.scanned fuel script) hrun

/-- The error of a failing run says where it comes from. Its outermost script is the one that was
run. It has no place exactly when scripts are nested too deeply; otherwise its place is that of a
token of its innermost script and lies in that text, between characters. Under a limit, it leaves at
most two scripts more than the limit, and that many exactly when scripts are nested too deeply. -/
theorem error_tells_where_it_arose {engine : Engine S} (hengine : engine.Reachable) {fuel : Nat}
    {script : String} {error : RunError}
    (herror : (engine.runWithin fuel script).result = .error (.failed error)) :
    error.scripts.getLast? = some script ∧
      (error.span = none ↔ error.kind.isTooDeep = true) ∧
      (error.kind.isTooDeep = false → ∃ innermost span,
        error.scripts.head? = some innermost ∧ error.span = some span ∧
          (∃ token ∈ Token.scan innermost, token.span = span) ∧ span.LiesIn innermost) ∧
      ∀ limit, engine.options.maxDepth = some limit →
        error.scripts.length ≤ limit + 2 ∧
          (error.scripts.length = limit + 2 ↔ error.kind.isTooDeep = true) := by
  have hfailure := failure_of_runWithin herror
  refine ⟨hfailure.getLast?_scripts, hfailure.span_eq_none_iff, ?_, ?_⟩
  · intro hkind
    obtain ⟨innermost, span, hhead, hspan, token, htoken, hplace⟩ := hfailure.exists_place hkind
    refine ⟨innermost, span, hhead, hspan, ⟨token, htoken, hplace⟩, ?_⟩
    rw [← hplace]
    exact Token.liesIn_of_mem_scan htoken
  · intro limit hlimit
    rw [hlimit, hengine.depth_eq_zero] at hfailure
    exact hfailure.length_scripts (Nat.zero_le _)

/-- A division by zero in the loop of a stored script, which was stored by an earlier run. -/
theorem error_in_loop_of_stored_script :
    let engine := ((Engine.new Dictionary.empty { maxDepth := some 2 }).runWithin 9
      "@set(\"@shares(n)\",\"@for(i,1,2) @div($i,$n) @endfor\")").engine
    let error : RunError :=
      ⟨.divisionByZero, some ⟨12, 5⟩, ["é @shares(0)", "@for(i,1,2) @div($i,0) @endfor"]⟩
    engine.Reachable ∧ (engine.runWithin 9 "é @shares(0)").result = .error (.failed error) ∧
      error.scripts.getLast? = some "é @shares(0)" ∧
      Span.LiesIn ⟨12, 5⟩ "@for(i,1,2) @div($i,0) @endfor" ∧ error.scripts.length ≤ 4 := by
  intro engine error
  have hengine : engine.Reachable := .run (.new _ _) 9 _
  have herror : (engine.runWithin 9 "é @shares(0)").result = .error (.failed error) := by
    decide +kernel
  obtain ⟨hlast, -, hplace, hlength⟩ := error_tells_where_it_arose hengine herror
  obtain ⟨innermost, span, hhead, hspan, -, hlies⟩ := hplace rfl
  cases hhead
  cases hspan
  exact ⟨hengine, herror, hlast, hlies, (hlength 2 (by decide +kernel)).1⟩

end Engine

end AtScript
