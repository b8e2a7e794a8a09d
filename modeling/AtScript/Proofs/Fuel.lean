import AtScript.Engine.Run
import AtScript.Proofs.LockstepCommand

/-! # More fuel

A run that does not run out of fuel does the same with more of it.
-/

namespace AtScript

/-- Whether more fuel could not have made a difference to a computation that stops. -/
def Stop.IsEnd {ε : Type} : Stop ε → Prop
  | .failed _ | .tooLong => True
  | .outOfFuel | .defect => False

theorem Stop.IsEnd.map {ε δ : Type} {stop : Stop ε} (hstop : stop.IsEnd) (change : ε → δ) :
    (stop.map change).IsEnd := by
  cases stop with
  | failed | tooLong => trivial
  | outOfFuel | defect => exact hstop.elim

/-- Running out of fuel is excused, and nothing else that a script can bring about. -/
def Tolerance.fuel : Tolerance where
  excuses stop := stop = .outOfFuel ∨ stop = .defect
  near := Eq
  near_refl _ := rfl
  excuses_inScript := by
    rintro stop script (rfl | rfl)
    · exact .inl rfl
    · exact .inr rfl
  excuses_defect _ _ := .inr rfl

namespace Exec

variable {S : Type} [Store S]

theorem lockstep_eq (tolerance : Tolerance) : Lockstep tolerance Eq Eq where
  nil := by
    rintro tokens rfl
    exact .inl rfl
  cons := by
    rintro token rest tokens rfl
    exact ⟨token, rest, rfl, .refl token, fun _ => rfl, fun _ => rfl⟩

omit [Store S] in
/-- Runners that follow one another run whole lists alike. -/
theorem sequenceAll_follows {tolerance : Tolerance} {run run' : Runner S}
    (hrun : ∀ tokens, Follows tolerance Eq (run tokens) (run' tokens)) (tokens : List Token) :
    Follows tolerance Eq (sequenceAll run tokens) (sequenceAll run' tokens) := by
  refine sequence_follows (by rintro tokens _ rfl; rfl) ?_ (.inl rfl) rfl
  rintro tokens _ rfl
  exact hrun tokens

/-- With more fuel a command does the same. -/
theorem command_follows_of_le {fuel more : Nat} (hle : fuel ≤ more) (tokens : List Token) :
    Follows (S := S) .fuel Eq (command fuel tokens) (command more tokens) := by
  induction fuel generalizing more tokens with
  | zero => exact Follows.throw_of_excuses (Or.inl rfl) _
  | succ fuel ih =>
      obtain ⟨more, rfl⟩ := Nat.exists_eq_add_one_of_ne_zero (Nat.ne_zero_of_lt hle)
      have hless : fuel ≤ more := Nat.le_of_succ_le_succ hle
      have hbudget : Tolerance.fuel.Affords fuel more := .inr ⟨hless, .inl rfl⟩
      refine commandWith_follows (lockstep_eq .fuel) ?_ ?_ hbudget rfl
      · rintro token rest _ rfl -
        exact ih hless (token :: rest)
      · intro body body' hbody
        obtain rfl := Tolerance.forall₂_eq rfl hbody
        exact sequenceAll_follows (ih hless) body

/-- With one more unit of fuel a command does the same. -/
theorem command_follows_succ (fuel : Nat) (tokens : List Token) :
    Follows (S := S) .fuel Eq (command fuel tokens) (command (fuel + 1) tokens) :=
  command_follows_of_le (Nat.le_succ fuel) tokens

/-- A list of tokens that succeeds does the same with one more unit of fuel. -/
theorem sequenceAll_ok_succ {fuel : Nat} {tokens : List Token} {frame after : Frame S}
    (hok : sequenceAll (command fuel) tokens frame = .ok () after) :
    sequenceAll (command (fuel + 1)) tokens frame = .ok () after := by
  obtain ⟨_, hsucc, rfl⟩ := (sequenceAll_follows (command_follows_succ fuel) tokens).of_ok hok
  exact hsucc

end Exec

/-! ## Whole runs -/

variable {S : Type}

/-- Whether a run came to an end: it succeeded, failed with an error of the language or was given up
for a list that is too long. -/
def Outcome.Ended (outcome : Outcome S) : Prop :=
  ∀ stop, outcome.result = .error stop → stop.IsEnd

theorem Outcome.ended_of_ok {outcome : Outcome S} (hresult : outcome.result = .ok ()) :
    outcome.Ended := by
  intro stop hstop
  rw [hresult] at hstop
  cases hstop

theorem Outcome.ended_of_stop {outcome : Outcome S} {stop : Stop RunError}
    (hresult : outcome.result = .error stop) (hstop : stop.IsEnd) : outcome.Ended := by
  intro other hother
  rw [hresult] at hother
  cases hother
  exact hstop

theorem Outcome.ended_of_failed {outcome : Outcome S} {error : RunError}
    (hresult : outcome.result = .error (.failed error)) : outcome.Ended :=
  ended_of_stop hresult trivial

theorem Engine.runWithin_succ [Store S] {engine : Engine S} {fuel : Nat} {script : String}
    (hended : (engine.runWithin fuel script).Ended) :
    engine.runWithin (fuel + 1) script = engine.runWithin fuel script := by
  have hfollows := Exec.Follows.nested script
    (Exec.sequenceAll_follows (Exec.command_follows_succ (S := S) fuel) (Token.scan script))
  rw [runWithin] at hended ⊢
  rw [runWithin]
  split at hended
  next hnull => rw [if_pos hnull, if_pos hnull]
  next hnull =>
    rw [if_neg hnull, if_neg hnull]
    cases hrun : Exec.nested (Exec.command fuel) script ⟨engine, ""⟩ with
    | ok value after =>
        obtain ⟨_, hmore, -⟩ := hfollows.of_ok hrun
        rw [hmore]
    | error stop after =>
        rw [hrun] at hended
        have hstop : stop.IsEnd := hended stop rfl
        rcases hfollows.of_error hrun with hexcused | ⟨other, hmore, halike⟩
        · rcases hexcused with rfl | rfl <;> exact hstop.elim
        · rw [hmore, halike.eq rfl]

/-- A run that ends does the same with more fuel. -/
theorem Engine.runWithin_of_le [Store S] {engine : Engine S} {fuel more : Nat} {script : String}
    (hended : (engine.runWithin fuel script).Ended) (hle : fuel ≤ more) :
    engine.runWithin more script = engine.runWithin fuel script := by
  induction hle with
  | refl => rfl
  | step hle ih =>
      rw [← ih] at hended
      rw [runWithin_succ hended, ih]

end AtScript
