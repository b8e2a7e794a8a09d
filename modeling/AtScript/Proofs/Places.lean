import AtScript.Check.Script
import AtScript.Engine.Run
import AtScript.Proofs.IdleScripts
import AtScript.Proofs.LockstepCommand
import AtScript.Store.Dictionary

/-! # Places do not matter

Scripts with the same tokens, wherever these stand, do the same. Where a token stands is shown only
by the place of a failure.
-/

namespace AtScript

/-- Nothing is excused, but a token may stand anywhere. -/
def Tolerance.placeless : Tolerance where
  excuses _ := False
  near _ _ := True
  near_refl _ := trivial
  excuses_inScript _ _ hexcuses := hexcuses
  excuses_defect _ hexcuses := hexcuses

/-- Tokens that look the same are the same up to their places. -/
theorem Tolerance.placeless_of_looks {tokens tokens' : List Token}
    (hlooks : tokens.map Token.look = tokens'.map Token.look) :
    List.Forall₂ Tolerance.placeless.SameToken tokens tokens' := by
  rw [← List.forall₂_eq_eq_eq, List.forall₂_map_left_iff, List.forall₂_map_right_iff] at hlooks
  refine hlooks.imp fun token token' hlook => ?_
  obtain ⟨hkind, htext⟩ := Prod.mk.inj hlook
  exact ⟨hkind, htext, trivial⟩

/-! ## How a computation ends -/

/-- What went wrong and how many scripts were running, whatever the place and the scripts. -/
def RunError.cause (error : RunError) : ErrorKind × Nat :=
  (error.kind, error.scripts.length)

namespace Stop

/-- Why a computation stopped, whatever the place. -/
def cause (stop : Stop RunError) : Stop (ErrorKind × Nat) :=
  stop.map RunError.cause

/-- The cause of a stop that left another script. -/
def deeper (cause : Stop (ErrorKind × Nat)) : Stop (ErrorKind × Nat) :=
  cause.map fun found => (found.1, found.2 + 1)

theorem cause_inScript (stop : Stop RunError) (script : String) :
    (stop.map (·.inScript script)).cause = stop.cause.deeper := by
  cases stop with
  | failed error => simp [cause, deeper, map, RunError.cause, RunError.scripts, RunError.inScript]
  | outOfFuel | tooLong | defect => rfl

end Stop

theorem Tolerance.Alike.cause_eq {tolerance : Tolerance} {first second : Stop RunError}
    (halike : tolerance.Alike first second) : first.cause = second.cause := by
  cases halike <;> rfl

namespace Exec

variable {S : Type}

/-- The frame in which a computation ends and, when it fails, the cause. -/
def ending : EStateM.Result (Stop RunError) (Frame S) Unit →
    Frame S × Except (Stop (ErrorKind × Nat)) Unit
  | .ok () frame => (frame, .ok ())
  | .error stop frame => (frame, .error stop.cause)

/-- The end of a nested script, by the end of its tokens. -/
def leaving : Frame S × Except (Stop (ErrorKind × Nat)) Unit →
    Frame S × Except (Stop (ErrorKind × Nat)) Unit
  | (frame, result) =>
    match frame.leave? with
    | some outer => (outer, result.mapError Stop.deeper)
    | none => (frame, .error .defect)

theorem ending_nested (run : Runner S) (script : String) {frame : Frame S}
    (hlimit : frame.exceededLimit? = none) :
    ending (nested run script frame) =
      leaving (ending (sequenceAll run (Token.scan script) frame.enter)) := by
  cases hscript : sequenceAll run (Token.scan script) frame.enter with
  | ok value after =>
      rw [nested_of_ok hlimit hscript]
      cases hleave : after.leave? <;> simp only [ending, leaving, hleave] <;> rfl
  | error stop after =>
      rw [nested_of_error hlimit hscript]
      cases hleave : after.leave? <;> simp only [ending, leaving, hleave]
      · rfl
      · rw [Stop.cause_inScript]
        rfl

theorem Follows.ending_eq {first second : Exec S Unit}
    (hfollows : Follows .placeless Eq first second) (frame : Frame S) :
    ending (first frame) = ending (second frame) := by
  cases hfirst : first frame with
  | ok value after =>
      obtain ⟨_, hsecond, rfl⟩ := hfollows.of_ok hfirst
      rw [hsecond]
  | error stop after =>
      rcases hfollows.of_error hfirst with hexcused | ⟨other, hsecond, halike⟩
      · exact hexcused.elim
      · rw [hsecond, ending, ending, halike.cause_eq]

/-! ## Commands at other places -/

variable {tolerance : Tolerance}

theorem lockstep_same (tolerance : Tolerance) :
    Lockstep tolerance (List.Forall₂ tolerance.SameToken) (List.Forall₂ tolerance.SameToken) where
  nil := by
    rintro _ ⟨⟩
    exact .inl rfl
  cons := by
    rintro token rest _ (_ | @⟨_, token', _, rest', hsame, hrest⟩)
    exact ⟨token', rest', rfl, hsame, fun _ => hrest, fun _ => hrest⟩

/-- Runners that do the same at other places run whole lists the same there. -/
theorem sequenceAll_follows_of_same {run run' : Runner S}
    (hrun : ∀ tokens tokens', List.Forall₂ tolerance.SameToken tokens tokens' →
      Follows tolerance (List.Forall₂ tolerance.SameToken) (run tokens) (run' tokens'))
    {tokens tokens' : List Token} (hsame : List.Forall₂ tolerance.SameToken tokens tokens') :
    Follows tolerance Eq (sequenceAll run tokens) (sequenceAll run' tokens') := by
  rw [sequenceAll, sequenceAll, hsame.length_eq]
  exact sequence_follows (fun _ _ htokens => htokens.length_eq) hrun (.inl rfl) hsame

variable [Store S]

/-- A command does the same on the same tokens at other places. -/
theorem command_follows_same (fuel : Nat) {tokens tokens' : List Token}
    (hsame : List.Forall₂ tolerance.SameToken tokens tokens') :
    Follows (S := S) tolerance (List.Forall₂ tolerance.SameToken) (command fuel tokens)
      (command fuel tokens') := by
  induction fuel generalizing tokens tokens' with
  | zero => exact .throw .outOfFuel
  | succ fuel ih =>
      refine commandWith_follows (lockstep_same tolerance) ?_ ?_ (.inl rfl) hsame
      · intro token rest tokens' htokens _
        exact ih htokens
      · intro body body' hbody
        exact sequenceAll_follows_of_same (fun _ _ => ih) hbody

theorem ending_sequenceAll_of_looks (fuel : Nat) {tokens tokens' : List Token}
    (hlooks : tokens.map Token.look = tokens'.map Token.look) (frame : Frame S) :
    ending (sequenceAll (command fuel) tokens frame) =
      ending (sequenceAll (command fuel) tokens' frame) := by
  have hsame := Tolerance.placeless_of_looks hlooks
  have hrun := sequenceAll_follows_of_same (fun _ _ => command_follows_same (S := S) fuel) hsame
  exact hrun.ending_eq frame

theorem ending_nested_of_looks (fuel : Nat) {first second : String}
    (hlooks : (Token.scan first).map Token.look = (Token.scan second).map Token.look)
    (frame : Frame S) :
    ending (nested (command fuel) first frame) = ending (nested (command fuel) second frame) := by
  cases hlimit : frame.exceededLimit? with
  | some limit =>
      rw [nested_of_exceeded _ hlimit, nested_of_exceeded _ hlimit]
      rfl
  | none =>
      rw [ending_nested _ first hlimit, ending_nested _ second hlimit,
        ending_sequenceAll_of_looks fuel hlooks]

end Exec
/-! ## Whole scripts -/

variable {S : Type} [Store S]

namespace Check

theorem flaw?_eq_and_count_eq {token token' : Token}
    (hsame : Tolerance.placeless.SameToken token token') (store : S) (index : Nat)
    (tally : Tally) :
    flaw? store index tally token = flaw? store index tally token' ∧
      tally.count token = tally.count token' := by
  obtain ⟨kind, text, span⟩ := token
  obtain ⟨kind', text', span'⟩ := token'
  obtain ⟨rfl, rfl, -⟩ := hsame
  exact ⟨rfl, rfl⟩

theorem tokensFrom_kind_of_same (store : S) {tokens tokens' : List Token}
    (hsame : List.Forall₂ Tolerance.placeless.SameToken tokens tokens') (index : Nat)
    (tally : Tally) :
    (tokensFrom store index tally tokens).mapError Finding.kind =
      (tokensFrom store index tally tokens').mapError Finding.kind := by
  induction hsame generalizing index tally with
  | nil => rfl
  | @cons token token' rest rest' htoken hrest ih =>
      obtain ⟨hflaw, hcount⟩ := flaw?_eq_and_count_eq htoken store index tally
      rw [tokensFrom, tokensFrom, hflaw, hcount]
      cases flaw? store index tally token' with
      | some kind => rfl
      | none => exact ih (index + 1) (tally.count token')

theorem map_kind_script (store : S) (text : String) :
    (script store text).map Finding.kind =
      if Text.isBlank text then []
      else match (tokens store (Token.scan text)).mapError Finding.kind with
        | .ok () => []
        | .error kind => [kind] := by
  rw [script]
  split
  · rfl
  · cases tokens store (Token.scan text) <;> rfl

theorem map_kind_script_of_looks (store : S) {first second : String}
    (hlooks : (Token.scan first).map Token.look = (Token.scan second).map Token.look) :
    (script store first).map Finding.kind = (script store second).map Finding.kind := by
  have hblank : Text.isBlank first = Text.isBlank second := by
    rw [Bool.eq_iff_iff, Token.isBlank_iff_looks, Token.isBlank_iff_looks, hlooks]
  have hsame := Tolerance.placeless_of_looks hlooks
  rw [map_kind_script, map_kind_script, hblank, tokens, tokensFrom_kind_of_same store hsame, tokens]

end Check

namespace Engine

theorem runWithin_of_not_isNull (fuel : Nat) (engine : Engine S) {script : String}
    (hnull : Value.isNull script = false) :
    ∃ frame result, Exec.ending (Exec.nested (Exec.command fuel) script ⟨engine, ""⟩) =
        (frame, result) ∧
      (engine.runWithin fuel script).engine = frame.engine ∧
      (engine.runWithin fuel script).output = some frame.out ∧
      (engine.runWithin fuel script).result.mapError Stop.cause = result := by
  rw [runWithin, hnull]
  cases Exec.nested (Exec.command fuel) script ⟨engine, ""⟩ with
  | ok value frame => exact ⟨frame, .ok (), rfl, rfl, rfl, rfl⟩
  | error stop frame => exact ⟨frame, .error stop.cause, rfl, rfl, rfl, rfl⟩

end Engine

end AtScript
