import AtScript.Proofs.Progress

/-! # What a failure can be blamed on

A failure blames the structure of a script when it names a broken pairing or a misplaced token. Only
the tokens of the script itself can bring that about: commands that run no script never do, and a
script that is run inside another one takes the blame for its own tokens.
-/

namespace AtScript

/-- Whether an error says that tokens do not fit together. -/
def ErrorKind.isStructural : ErrorKind → Bool
  | .imbalance _ | .unexpectedToken _ => true
  | _ => false

/-- A stop that does not blame the structure of the script at hand. The structure of a script that
it calls may be blamed. -/
def Stop.Sound (stop : Stop RunError) : Prop :=
  ∀ error, stop = .failed error → error.trail = [] → error.kind.isStructural = false

/-! ## Commands that run no script -/

/-- A pure computation that fails for no structural reason. -/
def SoundResult {α : Type} (value : Except Fault α) : Prop :=
  ∀ kind, value = .error (.failed kind) → kind.isStructural = false

namespace SoundResult

variable {α β : Type}

theorem ok (value : α) : SoundResult (.ok value) := nofun

theorem bind {value : Except Fault α} {next : α → Except Fault β} (hvalue : SoundResult value)
    (hnext : ∀ result, SoundResult (next result)) : SoundResult (value >>= next) := by
  cases value with
  | ok result => exact hnext result
  | error fault =>
      intro kind hkind
      cases hkind
      exact hvalue kind rfl

end SoundResult

theorem Function.integer_sound (text : String) : SoundResult (integer text) := by
  intro kind hkind
  unfold integer at hkind
  split at hkind <;> cases hkind
  rfl

theorem Function.compute_sound (operation : Arithmetic) (x y : Int64) :
    SoundResult (compute operation x y) := by
  intro kind hkind
  unfold compute at hkind
  split at hkind
  next => cases hkind
  next happly =>
    cases hkind
    cases operation <;> simp only [Arithmetic.apply] at happly <;> try cases happly
    all_goals
      split at happly <;> cases happly
      rfl

theorem Primitive.position_sound (text : String) : SoundResult (position text) := by
  refine (Function.integer_sound text).bind fun index => ?_
  split
  · rintro kind ⟨⟩
    rfl
  · exact .ok _

theorem Function.eval_sound (keyword : Keyword) (arguments : List String) :
    SoundResult (eval keyword arguments) := by
  unfold eval
  split
  case h_1 => exact (integer_sound _).bind fun _ => .ok _
  case h_2 =>
    refine (integer_sound _).bind fun first => (integer_sound _).bind fun second => ?_
    exact (compute_sound _ first second).bind fun _ => .ok _
  case h_8 => exact (integer_sound _).bind fun _ => .ok _
  case h_9 => exact (integer_sound _).bind fun _ => (integer_sound _).bind fun _ => .ok _
  case h_11 => exact (integer_sound _).bind fun _ => (integer_sound _).bind fun _ => .ok _
  all_goals exact nofun

namespace Exec

variable {S α : Type} {result : α → Prop}

theorem fail_sound {kind : ErrorKind} (hkind : kind.isStructural = false) (span : Span) :
    Ensures (S := S) Stop.Sound result (fail kind span) := by
  refine .throw ?_
  rintro _ ⟨⟩ -
  exact hkind

/-- What only changes the frame stops for no reason. -/
theorem modify_sound (change : Frame S → Frame S) :
    Ensures Stop.Sound (fun _ => True) (modify change : Exec S Unit) :=
  ⟨fun _ => trivial⟩

theorem get_sound : Ensures Stop.Sound (fun _ => True) (get : Exec S (Frame S)) :=
  ⟨fun _ => trivial⟩

theorem store_sound : Ensures Stop.Sound (fun _ => True) (store : Exec S S) :=
  ⟨fun _ => trivial⟩

theorem ofValue_sound (span : Span) (value : Except ValueError α) :
    Ensures (S := S) Stop.Sound (fun _ => True) (ofValue span value) := by
  cases value with
  | ok value => exact .pure trivial
  | error error => exact fail_sound rfl span

theorem ofFault_sound (span : Span) {value : Except Fault α} (hvalue : SoundResult value) :
    Ensures (S := S) Stop.Sound (fun _ => True) (ofFault span value) := by
  cases value with
  | ok value => exact .pure trivial
  | error fault =>
      cases fault with
      | failed kind => exact fail_sound (hvalue kind rfl) span
      | outOfFuel | tooLong | defect => exact .throw nofun

/-- A failure of a nested script is never blamed on the script that calls it. -/
theorem nested_sound (run : Runner S) (script : String) :
    Ensures Stop.Sound (fun _ => True) (nested run script) := by
  refine ⟨fun frame => ?_⟩
  cases hnested : nested run script frame with
  | ok value after => trivial
  | error stop after =>
      intro error herror htrail
      rcases nested_eq_error hnested with ⟨limit, rfl⟩ | rfl | ⟨inner, middle, -, rfl⟩
      · cases herror
        cases htrail
      · cases herror
      · cases inner with
        | failed cause =>
            cases herror
            cases htrail
        | outOfFuel | tooLong | defect => cases herror

end Exec

namespace Primitive

open Exec

variable {S : Type} [Store S] (span : Span)

theorem items_sound (name : String) :
    Ensures (S := S) Stop.Sound (fun _ => True) (items span name) :=
  store_sound.andThen fun _ => ofValue_sound span _

omit [Store S] in
theorem checkLength_sound (length : Nat) :
    Ensures (S := S) Stop.Sound (fun _ => True) (checkLength length) := by
  unfold checkLength
  split
  · exact .pure trivial
  · exact .throw nofun

omit [Store S] in
theorem padTo_sound (length : Nat) (texts : List String) :
    Ensures (S := S) Stop.Sound (fun _ => True) (padTo length texts) :=
  (checkLength_sound _).andThen fun _ => .pure trivial

theorem onList_sound (command : ListCommand) (arguments : List String) :
    Ensures (S := S) Stop.Sound (fun _ => True) (onList span command arguments) := by
  have hposition {α : Type} (text : String) (next : Nat → Exec S α)
      (hnext : ∀ index, Ensures Stop.Sound (fun _ => True) (next index)) :
      Ensures Stop.Sound (fun _ => True) (do next (← ofFault span (position text))) :=
    (ofFault_sound span (position_sound text)).andThen hnext
  unfold onList
  split
  case h_1 => exact modify_sound _
  case h_2 =>
    refine (items_sound span _).andThen fun texts => ?_
    exact (checkLength_sound _).andThen fun _ => modify_sound _
  case h_4 => exact (items_sound span _).andThen fun _ => modify_sound _
  case h_3 =>
    exact (items_sound span _).andThen fun texts => hposition _ _ fun index => modify_sound _
  case h_5 =>
    refine (items_sound span _).andThen fun texts => hposition _ _ fun index => ?_
    refine (padTo_sound _ texts).andThen fun padded => ?_
    split
    · exact modify_sound _
    · exact .throw nofun
  case h_6 =>
    refine (items_sound span _).andThen fun texts => hposition _ _ fun index => ?_
    refine (padTo_sound _ texts).andThen fun padded => ?_
    refine (checkLength_sound _).andThen fun _ => ?_
    split
    · exact modify_sound _
    · exact .throw nofun
  case h_7 =>
    refine (items_sound span _).andThen fun texts => hposition _ _ fun index => ?_
    split
    · exact modify_sound _
    · exact .pure trivial
  case h_8 => exact .throw nofun

theorem onArray_sound (command : ArrayCommand) (arguments : List String) :
    Ensures (S := S) Stop.Sound (fun _ => True) (onArray span command arguments) := by
  have hinteger (text : String) : Ensures (S := S) Stop.Sound (fun _ => True)
      (ofFault span (Function.integer text)) := ofFault_sound span (Function.integer_sound text)
  unfold onArray
  split
  case h_1 => exact modify_sound _
  case h_2 =>
    refine (hinteger _).andThen fun row => (hinteger _).andThen fun column => ?_
    exact store_sound.andThen fun _ => modify_sound _
  case h_3 =>
    exact (hinteger _).andThen fun row => (hinteger _).andThen fun column => modify_sound _
  case h_4 => exact .throw nofun

theorem update_sound (operation : Arithmetic) (key operand : String) :
    Ensures (S := S) Stop.Sound (fun _ => True) (update span operation key operand) := by
  refine store_sound.andThen fun current => (ofValue_sound span _).andThen fun number => ?_
  refine (ofFault_sound span (Function.integer_sound operand)).andThen fun amount => ?_
  refine (ofFault_sound span (Function.compute_sound operation number amount)).andThen fun _ => ?_
  exact modify_sound _

/-- A primitive command fails for no structural reason. -/
theorem run_sound (keyword : Keyword) (arguments : List String) :
    Ensures (S := S) Stop.Sound (fun _ => True) (run span keyword arguments) := by
  have hdraw {α : Type} (change : Frame S → Frame S) (next : Exec S α)
      (hnext : Ensures Stop.Sound (fun _ => True) next) :
      Ensures Stop.Sound (fun _ => True) (do modify change; next) :=
    (modify_sound change).andThen fun _ => hnext
  unfold run
  split
  case h_1 => exact .pure trivial
  case h_4 => exact update_sound span _ _ _
  case h_6 | h_8 | h_9 => exact store_sound.andThen fun _ => modify_sound _
  case h_10 =>
    refine (ofFault_sound span (Function.integer_sound _)).andThen fun limit => ?_
    exact get_sound.andThen fun frame => hdraw _ _ (modify_sound _)
  case h_11 =>
    refine (ofFault_sound span (Function.integer_sound _)).andThen fun percent => ?_
    exact get_sound.andThen fun frame => hdraw _ _ (modify_sound _)
  case h_12 =>
    refine get_sound.andThen fun frame => ?_
    split
    · exact .pure trivial
    · exact hdraw _ _ (modify_sound _)
  case h_14 => exact onList_sound span _ _
  case h_15 => exact onArray_sound span _ _
  case h_16 =>
    exact (ofFault_sound span (Function.eval_sound _ _)).andThen fun _ => modify_sound _
  all_goals exact modify_sound _

end Primitive

namespace Exec

variable {S : Type}

theorem checkArity_sound (command : Token) (arity : Arity) (found : Nat) :
    Ensures (S := S) Stop.Sound (fun _ => True) (checkArity command arity found) := by
  rw [checkArity]
  split
  · exact .pure trivial
  · exact fail_sound rfl command.span

theorem builtin_sound [Store S] (run : Runner S) (keyword : Keyword) (span : Span)
    (values : List String) :
    Ensures Stop.Sound (fun _ => True) (builtin run keyword span values) := by
  unfold builtin
  split
  · exact nested_sound run _
  · exact store_sound.andThen fun current => nested_sound run _
  · refine store_sound.andThen fun current => ?_
    dsimp only
    split
    · exact nested_sound run _
    · exact modify_sound _
  · exact Primitive.run_sound span _ _

end Exec

end AtScript
