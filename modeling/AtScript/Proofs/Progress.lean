import AtScript.Proofs.JudgementCommand

/-! # Every command takes a token

A command that succeeds takes the token at its front and leaves an end of the tokens after it, so
running all of some tokens never runs out of steps.
-/

namespace AtScript

namespace Exec

variable {S α β : Type} {stopped : Stop RunError → Prop} {result : α → Prop}

/-- What holds of the value of a computation that succeeds and of the stop of one that does not,
whatever frame it starts from. -/
structure Ensures (stopped : Stop RunError → Prop) (result : α → Prop) (action : Exec S α) :
    Prop where
  of_frame : ∀ frame, match action frame with
    | .ok value _ => result value
    | .error stop _ => stopped stop

namespace Ensures

variable {action : Exec S α}

theorem of_ok (hensures : Ensures stopped result action) {frame after : Frame S} {value : α}
    (hok : action frame = .ok value after) : result value := by
  have hframe := hensures.of_frame frame
  rw [hok] at hframe
  exact hframe

theorem of_error (hensures : Ensures stopped result action) {frame after : Frame S}
    {stop : Stop RunError} (herror : action frame = .error stop after) : stopped stop := by
  have hframe := hensures.of_frame frame
  rw [herror] at hframe
  exact hframe

theorem mono {weaker : α → Prop} (hensures : Ensures stopped result action)
    (hweaker : ∀ value, result value → weaker value) : Ensures stopped weaker action := by
  refine ⟨fun frame => ?_⟩
  cases haction : action frame with
  | ok value after => exact hweaker value (hensures.of_ok haction)
  | error stop after => exact hensures.of_error haction

/-- Less may be asked of the stops. -/
theorem excuse {excused : Stop RunError → Prop} (hensures : Ensures stopped result action)
    (hexcused : ∀ stop, stopped stop → excused stop) : Ensures excused result action := by
  refine ⟨fun frame => ?_⟩
  cases haction : action frame with
  | ok value after => exact hensures.of_ok haction
  | error stop after => exact hexcused stop (hensures.of_error haction)

theorem and {result' : α → Prop} {stopped' : Stop RunError → Prop}
    (hensures : Ensures stopped result action) (hensures' : Ensures stopped' result' action) :
    Ensures stopped (fun value => result value ∧ result' value) action := by
  refine ⟨fun frame => ?_⟩
  cases haction : action frame with
  | ok value after => exact ⟨hensures.of_ok haction, hensures'.of_ok haction⟩
  | error stop after => exact hensures.of_error haction

theorem pure {value : α} (hvalue : result value) :
    Ensures (S := S) stopped result (pure value) :=
  ⟨fun _ => hvalue⟩

theorem throw {stop : Stop RunError} (hstop : stopped stop) :
    Ensures (S := S) stopped result (throw stop) :=
  ⟨fun _ => hstop⟩

theorem bind {result' : β → Prop} {next : α → Exec S β} (hensures : Ensures stopped result action)
    (hnext : ∀ value, result value → Ensures stopped result' (next value)) :
    Ensures stopped result' (action >>= next) := by
  refine ⟨fun frame => ?_⟩
  rw [bind_apply]
  cases haction : action frame with
  | ok value after => exact (hnext value (hensures.of_ok haction)).of_frame after
  | error stop after => exact hensures.of_error haction

/-- As `bind`, where nothing is known of the value. -/
theorem andThen {result' : β → Prop} {next : α → Exec S β}
    (hensures : Ensures stopped (fun _ => True) action)
    (hnext : ∀ value, Ensures stopped result' (next value)) :
    Ensures stopped result' (action >>= next) :=
  hensures.bind fun value _ => hnext value

theorem capture (hensures : Ensures stopped result action) :
    Ensures stopped (fun value => result value.1) (capture action) := by
  refine ⟨fun ⟨engine, out⟩ => ?_⟩
  simp only [Exec.capture]
  cases haction : action ⟨engine, ""⟩ with
  | ok value after => exact hensures.of_ok haction
  | error stop after => exact hensures.of_error haction

/-- Nothing is asked of a computation. -/
theorem anyway (action : Exec S α) : Ensures (fun _ => True) (fun _ => True) action := by
  refine ⟨fun frame => ?_⟩
  cases action frame <;> trivial

end Ensures

end Exec

/-! ## What commands leave -/

namespace Exec

variable {S : Type}

/-- A computation that leaves an end of some tokens when it succeeds. -/
abbrev Leaves (tokens : List Token) (action : Exec S (List Token)) : Prop :=
  Ensures (fun _ => True) (· <:+ tokens) action

/-- A runner that takes at least one token. -/
def Advances (run : Runner S) : Prop :=
  ∀ token rest, Leaves rest (run (token :: rest))

variable [Store S]

/-- What holds of the values alone is a judgement, whatever the failures. -/
def Ensures.judgement (places : Span → Prop) : Judgement S places where
  holds result action := Ensures (fun _ => True) result action
  pure := .pure
  bind := .bind
  fail _ _ := .throw trivial
  tooLong := .throw trivial
  elementary _ := .anyway _
  store := .anyway _
  capture := .capture

/-- Every command that succeeds takes at least one token. -/
theorem command_advances (fuel : Nat) : Advances (S := S) (command fuel) := by
  intro token rest
  have hcommand := Judgement.command (Ensures.judgement (S := S)) (fun _ _ _ => .throw trivial)
    (fun _ _ _ _ => .anyway _) fuel (fun _ => True)
  exact hcommand token rest fun _ _ => trivial

/-- The arguments of a command leave an end of the tokens after it. -/
theorem arguments_leaves {run : Runner S} (hadvances : Advances run) (budget : Nat)
    (command : Token) (tokens : List Token) :
    Ensures (fun _ => True) (fun value => value.2 <:+ tokens)
      (arguments budget run command tokens) := by
  let family := (Ensures.judgement (S := S) fun _ => True).single fun _ => .throw trivial
  have hcovers : family.Covers (tokens.length + 1) fun _ => run :=
    fun token rest _ _ => hadvances token rest
  have harguments : family.holds (fun value => value.2 <:+ tokens)
      fun _ => arguments budget run command tokens :=
    FamilyJudgement.arguments hcovers (Nat.lt_succ_self _) (fun _ _ => trivial) trivial
  exact harguments

end Exec

end AtScript
