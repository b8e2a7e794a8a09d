import AtScript.Proofs.Fuel
import AtScript.Proofs.Progress
import AtScript.Store.Dictionary

/-! # Commands in context

What a run does depends only on the tokens that it takes. A run that succeeds on some tokens does
the same when more tokens follow, and a condition is evaluated the same whatever follows its THEN.
-/

namespace AtScript

/-- A new engine over an empty dictionary, before anything is written. -/
def Frame.initial : Frame Dictionary := ⟨.new .empty {}, ""⟩

namespace Tolerance

/-- Every stop is excused, so only runs that succeed are compared. -/
def any : Tolerance where
  excuses _ := True
  near := Eq
  near_refl _ := rfl
  excuses_inScript _ _ _ := trivial
  excuses_defect _ _ := trivial

/-- Nothing is excused. -/
def strict : Tolerance where
  excuses _ := False
  near := Eq
  near_refl _ := rfl
  excuses_inScript _ _ hexcuses := hexcuses
  excuses_defect _ hexcuses := hexcuses

end Tolerance

namespace Exec

variable {S : Type}

/-! ## More tokens at the end -/

theorem lockstep_append (tail : List Token) :
    Lockstep .any (fun tokens longer => longer = tokens ++ tail)
      (fun tokens longer => longer = tokens ++ tail) where
  nil _ := .inr fun _ => trivial
  cons := by
    rintro token rest _ rfl
    exact ⟨token, rest ++ tail, rfl, .refl token, fun _ => rfl, fun _ => rfl⟩

theorem command_follows_append [Store S] (fuel : Nat) (tokens tail : List Token) :
    Follows (S := S) .any (fun rest longer => longer = rest ++ tail) (command fuel tokens)
      (command fuel (tokens ++ tail)) := by
  induction fuel generalizing tokens with
  | zero => exact Follows.throw_of_excuses trivial _
  | succ fuel ih =>
      -- Bodies of loops are cut out of the tokens, so what follows is not in them.
      refine commandWith_follows (lockstep_append tail) ?_ ?_ (.inl rfl) rfl
      · rintro token rest _ rfl -
        exact ih (token :: rest)
      · intro body body' hbody
        obtain rfl := Tolerance.forall₂_eq rfl hbody
        exact .refl _

/-- A command that succeeds does the same when more tokens follow, and leaves them. -/
theorem command_append [Store S] {fuel : Nat} {tokens rest : List Token} {frame after : Frame S}
    (hok : command fuel tokens frame = .ok rest after) (tail : List Token) :
    command fuel (tokens ++ tail) frame = .ok (rest ++ tail) after := by
  obtain ⟨_, happend, rfl⟩ := (command_follows_append fuel tokens tail).of_ok hok
  exact happend

/-! ## The commands of a run -/

/-- A run of commands: the tokens and the frame it starts from, what was left of the tokens at the
start of each command, and the tokens and the frame at its end. -/
inductive Trace (run : Runner S) :
    List Token → Frame S → List (List Token) → List Token → Frame S → Prop
  | done {tokens : List Token} {frame : Frame S} : Trace run tokens frame [] tokens frame
  | step {token : Token} {tokens rest final : List Token} {frame middle after : Frame S}
      {cursors : List (List Token)} (hcommand : run (token :: tokens) frame = .ok rest middle)
      (hrest : Trace run rest middle cursors final after) :
      Trace run (token :: tokens) frame ((token :: tokens) :: cursors) final after

namespace Trace

variable {run : Runner S} {tokens middle final : List Token} {frame between after : Frame S}
  {cursors cursors' : List (List Token)}

theorem trans (hfirst : Trace run tokens frame cursors middle between)
    (hsecond : Trace run middle between cursors' final after) :
    Trace run tokens frame (cursors ++ cursors') final after := by
  induction hfirst with
  | done => exact hsecond
  | step hcommand _ ih => exact .step hcommand (ih hsecond)

/-- The same commands are run when more tokens follow. -/
theorem append [Store S] {fuel : Nat}
    (htrace : Trace (command fuel) tokens frame cursors final after) (tail : List Token) :
    Trace (command fuel) (tokens ++ tail) frame (cursors.map (· ++ tail)) (final ++ tail)
      after := by
  induction htrace with
  | done => exact .done
  | step hcommand _ ih => exact .step (command_append hcommand tail) ih

end Trace

/-- A run of all of some tokens is a run of commands. -/
theorem exists_trace_of_sequence {run : Runner S} {budget : Nat} {tokens : List Token}
    {frame after : Frame S} (hok : sequence run budget tokens frame = .ok () after) :
    ∃ cursors, Trace run tokens frame cursors [] after := by
  induction budget generalizing tokens frame with
  | zero =>
      cases tokens with
      | nil =>
          cases hok
          exact ⟨[], .done⟩
      | cons token rest => cases hok
  | succ budget ih =>
      cases tokens with
      | nil =>
          simp only [sequence] at hok
          cases hok
          exact ⟨[], .done⟩
      | cons token tokens =>
          simp only [sequence, bind_apply] at hok
          cases hcommand : run (token :: tokens) frame with
          | error stop stopped =>
              rw [hcommand] at hok
              cases hok
          | ok rest middle =>
              rw [hcommand] at hok
              obtain ⟨cursors, hrest⟩ := ih hok
              exact ⟨(token :: tokens) :: cursors, .step hcommand hrest⟩

/-- Every command takes a token, so as many steps as there are tokens are enough. -/
theorem sequence_eq_sequenceAll {run : Runner S} (hrun : Advances run) {budget : Nat}
    {tokens : List Token} (hbudget : tokens.length ≤ budget) (frame : Frame S) :
    sequence run budget tokens frame = sequenceAll run tokens frame := by
  -- A command may take many tokens, so the tokens after it are far fewer than the budget allows.
  induction budget using Nat.strongRecOn generalizing tokens frame with
  | ind budget ih =>
      cases tokens with
      | nil => cases budget <;> rfl
      | cons token tokens =>
          obtain ⟨budget, rfl⟩ := Nat.exists_eq_add_one_of_ne_zero (Nat.ne_zero_of_lt hbudget)
          rw [sequenceAll, List.length_cons]
          simp only [sequence, bind_apply]
          cases hcommand : run (token :: tokens) frame with
          | error stop stopped => rfl
          | ok rest middle =>
              have hlength : rest.length ≤ tokens.length :=
                ((hrun token tokens).of_ok hcommand).length_le
              rw [List.length_cons] at hbudget
              dsimp only
              rw [ih budget (Nat.lt_succ_self budget) (by omega),
                ih tokens.length (by omega) hlength]

/-- Running all of some tokens starts with the command at their front. -/
theorem sequenceAll_of_command {run : Runner S} (hrun : Advances run) {token : Token}
    {tokens rest : List Token} {frame middle : Frame S}
    (hcommand : run (token :: tokens) frame = .ok rest middle) :
    sequenceAll run (token :: tokens) frame = sequenceAll run rest middle := by
  rw [sequenceAll, List.length_cons]
  simp only [sequence, bind_apply, hcommand]
  exact sequence_eq_sequenceAll hrun ((hrun token tokens).of_ok hcommand).length_le middle

/-- Running all of some tokens goes on from the end of a run of commands. -/
theorem Trace.sequenceAll_eq {run : Runner S} (hrun : Advances run) {tokens final : List Token}
    {frame after : Frame S} {cursors : List (List Token)}
    (htrace : Trace run tokens frame cursors final after) :
    sequenceAll run tokens frame = sequenceAll run final after := by
  induction htrace with
  | done => rfl
  | step hcommand _ ih => rw [sequenceAll_of_command hrun hcommand, ih]

/-- Tokens that succeed on their own do the same in front of others. -/
theorem sequenceAll_append [Store S] {fuel : Nat} {tokens : List Token} {frame after : Frame S}
    (hok : sequenceAll (command fuel) tokens frame = .ok () after) (tail : List Token) :
    sequenceAll (command fuel) (tokens ++ tail) frame = sequenceAll (command fuel) tail after := by
  obtain ⟨cursors, htrace⟩ := exists_trace_of_sequence hok
  exact (htrace.append tail).sequenceAll_eq (command_advances fuel)

/-! ## The end of a condition -/

/-- Where nothing is excused, the second computation is the first one with its value changed. -/
theorem Follows.eq_map {α β : Type} {change : α → β} {first : Exec S α} {second : Exec S β}
    (hfollows : Follows .strict (fun value other => other = change value) first second) :
    second = (do return change (← first)) := by
  funext frame
  rw [bind_apply]
  cases hfirst : first frame with
  | ok value after =>
      obtain ⟨_, hsecond, rfl⟩ := hfollows.of_ok hfirst
      exact hsecond
  | error stop after =>
      rcases hfollows.of_error hfirst with hexcused | ⟨other, hsecond, halike⟩
      · exact hexcused.elim
      · rw [hsecond, halike.eq rfl]

/-- A condition with its THEN, alone and in front of `tail`. -/
def SameCondition (tail tokens longer : List Token) : Prop :=
  ∃ condition last, (∀ token ∈ condition, token.branch? = none) ∧
    last.branch? = some .thenWord ∧ tokens = condition ++ [last] ∧
      longer = condition ++ last :: tail

theorem lockstep_condition (tail : List Token) :
    Lockstep .strict (SameCondition tail) (fun rest longer => rest = [] ∧ longer = tail) where
  nil := by
    rintro tokens ⟨condition, last, -, -, hnil, -⟩
    cases condition <;> cases hnil
  cons := by
    rintro token rest _ ⟨condition, last, hplain, hlast, heq, rfl⟩
    cases condition with
    | nil =>
        cases heq
        have hending := (conditionRole_eq_ending_iff _).mpr hlast
        exact ⟨_, tail, rfl, .refl _, fun _ => ⟨rfl, rfl⟩, fun hother => absurd hending hother⟩
    | cons first condition =>
        cases heq
        rw [List.forall_mem_cons] at hplain
        refine ⟨_, _, rfl, .refl _, fun hending => ?_, fun _ => ?_⟩
        · rw [conditionRole_eq_ending_iff, hplain.1] at hending
          cases hending
        · exact ⟨condition, last, hplain.2, hlast, rfl, rfl⟩

theorem command_inStep_condition [Store S] (fuel : Nat) (tail : List Token) :
    InStep (S := S) .strict (SameCondition tail) (command fuel) (command fuel) := by
  induction fuel with
  | zero => exact fun _ _ _ _ _ => .throw .outOfFuel
  | succ fuel ih =>
      exact commandWith_inStep (lockstep_condition tail) ih (fun _ => .refl _) (.inl rfl)

/-- A condition is evaluated the same whatever follows its THEN. -/
theorem condition_append [Store S] (budget fuel : Nat) (ifSpan : Span) {tokens : List Token}
    {last : Token} (hplain : ∀ token ∈ tokens, token.branch? = none)
    (hlast : last.branch? = some .thenWord) (tail : List Token) :
    condition (S := S) budget (command fuel) ifSpan (tokens ++ last :: tail) =
      (do
        let (holds, _) ← condition budget (command fuel) ifSpan (tokens ++ [last])
        return (holds, tail)) := by
  have hfollows := conditionFrom_follows (S := S) (lockstep_condition tail)
    (command_inStep_condition fuel tail) (rfl : ifSpan = ifSpan) (.inl (rfl : budget = budget)) {}
    ⟨tokens, last, hplain, hlast, rfl, rfl⟩
  refine (hfollows.mono fun value other hrelated => ?_).eq_map
  exact Prod.ext hrelated.1.symm hrelated.2.2

end Exec

end AtScript
