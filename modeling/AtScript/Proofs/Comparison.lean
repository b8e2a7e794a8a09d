import AtScript.Engine.Command

/-! # Comparing two computations

Two runs are compared from the same frame. Whatever the first one does the second one does as well,
up to a *tolerance*: some stops of the first run excuse the second one, and a failing token may
stand at another place. The rules below compare composed computations part by part, so that nothing
beyond this module has to look at frames.
-/

namespace AtScript

/-- How far two runs may differ. -/
structure Tolerance where
  /-- Whether a stop of the first run frees the second one from doing the same. -/
  excuses : Stop RunError → Prop
  /-- Whether two places of a failing token count as the same. -/
  near : Span → Span → Prop
  near_refl : ∀ span, near span span
  excuses_inScript : ∀ stop script, excuses stop → excuses (stop.map (·.inScript script))
  /-- A tolerance that excuses anything excuses a state that should not arise. -/
  excuses_defect : ∀ stop, excuses stop → excuses .defect

namespace Tolerance

/-- Two stops that differ at most in the place of the failing token. -/
inductive Alike (tolerance : Tolerance) : Stop RunError → Stop RunError → Prop
  | refl (stop : Stop RunError) : Alike tolerance stop stop
  | moved (kind : ErrorKind) (trail : List String) {first second : Span}
      (hnear : tolerance.near first second) :
      Alike tolerance (.failed ⟨kind, some first, trail⟩) (.failed ⟨kind, some second, trail⟩)

/-- Leaving a script keeps stops alike. -/
theorem Alike.inScript {tolerance : Tolerance} {first second : Stop RunError}
    (halike : tolerance.Alike first second) (script : String) :
    tolerance.Alike (first.map (·.inScript script)) (second.map (·.inScript script)) := by
  cases halike with
  | refl => exact .refl _
  | moved kind trail hnear => exact .moved kind (script :: trail) hnear

/-- Two tokens that differ at most in their place. -/
structure SameToken (tolerance : Tolerance) (first second : Token) : Prop where
  kind : first.kind = second.kind
  text : first.text = second.text
  near : tolerance.near first.span second.span

namespace SameToken

variable {tolerance : Tolerance} {first second : Token}

theorem refl (token : Token) : tolerance.SameToken token token :=
  ⟨rfl, rfl, tolerance.near_refl _⟩

theorem ofToken?_eq (hsame : tolerance.SameToken first second) :
    Keyword.ofToken? first = Keyword.ofToken? second := by
  rw [Keyword.ofToken?, Keyword.ofToken?, Token.hasAt, Token.hasAt, hsame.kind, hsame.text]

theorem isLiteral_eq (hsame : tolerance.SameToken first second) :
    first.isLiteral = second.isLiteral := by
  simp only [Token.isLiteral, Token.hasAt, hsame.kind, hsame.text]

theorem literalValue_eq (hsame : tolerance.SameToken first second) :
    first.literalValue = second.literalValue := by
  simp only [Token.literalValue, hsame.kind, hsame.text]

theorem role_eq (hsame : tolerance.SameToken first second) : first.role = second.role := by
  simp only [Token.role, hsame.isLiteral_eq, hsame.literalValue_eq, hsame.ofToken?_eq, hsame.kind]

theorem conditionRole_eq (hsame : tolerance.SameToken first second) :
    Exec.conditionRole first = Exec.conditionRole second := by
  simp only [Exec.conditionRole, hsame.role_eq]

theorem substitute (hsame : tolerance.SameToken first second) (placeholder value : String) :
    tolerance.SameToken (Exec.substituteToken placeholder value first)
      (Exec.substituteToken placeholder value second) := by
  obtain ⟨kind, text, span⟩ := first
  obtain ⟨kind', text', span'⟩ := second
  obtain ⟨rfl, rfl, hnear⟩ := hsame
  cases kind <;> exact ⟨rfl, rfl, hnear⟩

/-- Where every place counts, such tokens are equal. -/
theorem eq (hnear : tolerance.near = Eq) (hsame : tolerance.SameToken first second) :
    first = second := by
  obtain ⟨kind, text, span⟩ := first
  obtain ⟨kind', text', span'⟩ := second
  obtain ⟨rfl, rfl, hspan⟩ := hsame
  rw [hnear] at hspan
  cases hspan
  rfl

end SameToken

/-- Where every place counts, stops that are alike are equal. -/
theorem Alike.eq {tolerance : Tolerance} {first second : Stop RunError}
    (hnear : tolerance.near = Eq) (halike : tolerance.Alike first second) : second = first := by
  cases halike with
  | refl => rfl
  | moved kind trail hspan =>
      rw [hnear] at hspan
      cases hspan
      rfl

end Tolerance

namespace Exec

variable {S α β γ δ : Type} {tolerance : Tolerance}

theorem bind_apply (action : Exec S α) (next : α → Exec S β) (frame : Frame S) :
    (action >>= next) frame =
      match action frame with
      | .ok value after => next value after
      | .error stop after => .error stop after := by
  cases haction : action frame <;> simp only [bind, EStateM.bind, haction]

/-- A composed computation succeeds when both of its parts do. -/
theorem bind_eq_ok_iff {action : Exec S α} {next : α → Exec S β} {frame after : Frame S}
    {value : β} :
    (action >>= next) frame = .ok value after ↔
      ∃ first middle, action frame = .ok first middle ∧ next first middle = .ok value after := by
  rw [bind_apply]
  cases action frame with
  | ok first middle =>
      refine ⟨fun hnext => ⟨first, middle, rfl, hnext⟩, ?_⟩
      rintro ⟨_, _, ⟨⟩, hnext⟩
      exact hnext
  | error stop middle => simp

/-- A composed computation stops where its first part does, or where the second one does after
it. -/
theorem bind_eq_error_iff {action : Exec S α} {next : α → Exec S β} {frame after : Frame S}
    {stop : Stop RunError} :
    (action >>= next) frame = .error stop after ↔
      action frame = .error stop after ∨
        ∃ value middle, action frame = .ok value middle ∧
          next value middle = .error stop after := by
  rw [bind_apply]
  cases action frame with
  | ok value middle => simp [and_assoc]
  | error stop' middle => simp

theorem ofValue_eq_ok_iff {span : Span} {result : Except ValueError α} {frame after : Frame S}
    {value : α} :
    ofValue span result frame = .ok value after ↔ result = .ok value ∧ after = frame := by
  cases result with
  | ok value => simp [ofValue, Pure.pure, EStateM.pure, eq_comm]
  | error error =>
      constructor
      · rintro ⟨⟩
      · rintro ⟨⟨⟩, -⟩

theorem nested_of_exceeded (run : Runner S) {script : String} {frame : Frame S} {limit : Nat}
    (hlimit : frame.exceededLimit? = some limit) :
    nested run script frame = .error (.failed ⟨.tooDeep limit, none, [script]⟩) frame := by
  simp only [nested, hlimit]

theorem nested_of_ok {run : Runner S} {script : String} {frame after : Frame S}
    (hlimit : frame.exceededLimit? = none)
    (hscript : sequenceAll run (Token.scan script) frame.enter = .ok () after) :
    nested run script frame =
      match after.leave? with
      | some outer => .ok () outer
      | none => .error .defect after := by
  cases hleave : after.leave? <;> simp only [nested, hlimit, hscript, hleave]

theorem nested_of_error {run : Runner S} {script : String} {frame after : Frame S}
    {stop : Stop RunError} (hlimit : frame.exceededLimit? = none)
    (hscript : sequenceAll run (Token.scan script) frame.enter = .error stop after) :
    nested run script frame =
      match after.leave? with
      | some outer => .error (stop.map (·.inScript script)) outer
      | none => .error .defect after := by
  cases hleave : after.leave? <;> simp only [nested, hlimit, hscript, hleave]

/-- A nested script fails for its depth, for a state that should not arise, or as its tokens do. -/
theorem nested_eq_error {run : Runner S} {script : String} {frame after : Frame S}
    {stop : Stop RunError} (herror : nested run script frame = .error stop after) :
    (∃ limit, stop = .failed ⟨.tooDeep limit, none, [script]⟩) ∨ stop = .defect ∨
      ∃ inner middle, sequenceAll run (Token.scan script) frame.enter = .error inner middle ∧
        stop = inner.map (·.inScript script) := by
  cases hlimit : frame.exceededLimit? with
  | some limit =>
      rw [nested_of_exceeded run hlimit] at herror
      cases herror
      exact .inl ⟨limit, rfl⟩
  | none =>
      cases hscript : sequenceAll run (Token.scan script) frame.enter with
      | ok value middle =>
          rw [nested_of_ok hlimit hscript] at herror
          cases hleave : middle.leave? <;> rw [hleave] at herror <;> cases herror
          exact .inr (.inl rfl)
      | error inner middle =>
          rw [nested_of_error hlimit hscript] at herror
          cases hleave : middle.leave? <;> rw [hleave] at herror <;> cases herror
          · exact .inr (.inl rfl)
          · exact .inr (.inr ⟨inner, middle, rfl, rfl⟩)

/-- The second computation does what the first one does: it succeeds with a related value and the
same frame where the first succeeds, and it stops alike, with the same frame, where the first one
stops without being excused. -/
structure Follows (tolerance : Tolerance) (related : α → β → Prop) (first : Exec S α)
    (second : Exec S β) : Prop where
  of_frame : ∀ frame, match first frame with
    | .ok value after => ∃ other, second frame = .ok other after ∧ related value other
    | .error stop after =>
      tolerance.excuses stop ∨
        ∃ other, second frame = .error other after ∧ tolerance.Alike stop other

namespace Follows

variable {related : α → β → Prop} {first : Exec S α} {second : Exec S β}

theorem of_ok (hfollows : Follows tolerance related first second) {frame after : Frame S}
    {value : α} (hok : first frame = .ok value after) :
    ∃ other, second frame = .ok other after ∧ related value other := by
  have hframe := hfollows.of_frame frame
  rw [hok] at hframe
  exact hframe

theorem of_error (hfollows : Follows tolerance related first second) {frame after : Frame S}
    {stop : Stop RunError} (herror : first frame = .error stop after) :
    tolerance.excuses stop ∨
      ∃ other, second frame = .error other after ∧ tolerance.Alike stop other := by
  have hframe := hfollows.of_frame frame
  rw [herror] at hframe
  exact hframe

theorem refl (action : Exec S α) : Follows tolerance Eq action action := by
  refine ⟨fun frame => ?_⟩
  cases haction : action frame with
  | ok value after => exact ⟨value, rfl, rfl⟩
  | error stop after => exact .inr ⟨stop, rfl, .refl stop⟩

theorem mono {weaker : α → β → Prop} (hfollows : Follows tolerance related first second)
    (hweaker : ∀ value other, related value other → weaker value other) :
    Follows tolerance weaker first second := by
  refine ⟨fun frame => ?_⟩
  cases hfirst : first frame with
  | ok value after =>
      obtain ⟨other, hsecond, hrelated⟩ := hfollows.of_ok hfirst
      exact ⟨other, hsecond, hweaker value other hrelated⟩
  | error stop after => exact hfollows.of_error hfirst

theorem pure {value : α} {other : β} (hrelated : related value other) :
    Follows (S := S) tolerance related (pure value) (pure other) :=
  ⟨fun _ => ⟨other, rfl, hrelated⟩⟩

theorem bind {next : α → Exec S γ} {next' : β → Exec S δ} {result : γ → δ → Prop}
    (hfollows : Follows tolerance related first second)
    (hnext : ∀ value other, related value other →
      Follows tolerance result (next value) (next' other)) :
    Follows tolerance result (first >>= next) (second >>= next') := by
  refine ⟨fun frame => ?_⟩
  rw [bind_apply, bind_apply]
  cases hfirst : first frame with
  | ok value after =>
      obtain ⟨other, hsecond, hrelated⟩ := hfollows.of_ok hfirst
      rw [hsecond]
      exact (hnext value other hrelated).of_frame after
  | error stop after =>
      rcases hfollows.of_error hfirst with hexcused | ⟨other, hsecond, halike⟩
      · exact .inl hexcused
      · rw [hsecond]
        exact .inr ⟨other, rfl, halike⟩

/-- As `bind`, for computations that give the same value. -/
theorem bind_eq {result : γ → δ → Prop} {first second : Exec S α} {next : α → Exec S γ}
    {next' : α → Exec S δ} (hfollows : Follows tolerance Eq first second)
    (hnext : ∀ value, Follows tolerance result (next value) (next' value)) :
    Follows tolerance result (first >>= next) (second >>= next') := by
  refine hfollows.bind ?_
  rintro value _ rfl
  exact hnext value

theorem throw (stop : Stop RunError) :
    Follows (S := S) tolerance related (throw stop) (throw stop) :=
  ⟨fun _ => .inr ⟨stop, rfl, .refl stop⟩⟩

theorem fail (kind : ErrorKind) {place place' : Span} (hnear : tolerance.near place place') :
    Follows (S := S) tolerance related (fail kind place) (fail kind place') :=
  ⟨fun _ => .inr ⟨_, rfl, .moved kind [] hnear⟩⟩

/-- Nothing is asked of the second computation where the first one stops with an excuse. -/
theorem throw_of_excuses {stop : Stop RunError} (hexcuses : tolerance.excuses stop)
    (second : Exec S β) : Follows tolerance related (MonadExcept.throw stop) second :=
  ⟨fun _ => .inl hexcuses⟩

theorem ofValue {place place' : Span} (hnear : tolerance.near place place')
    (value : Except ValueError α) :
    Follows (S := S) tolerance Eq (ofValue place value) (ofValue place' value) := by
  cases value with
  | ok value => exact .pure rfl
  | error error => exact .fail (.value error) hnear

theorem ofFault {place place' : Span} (hnear : tolerance.near place place')
    (value : Except Fault α) :
    Follows (S := S) tolerance Eq (ofFault place value) (ofFault place' value) := by
  cases value with
  | ok value => exact .pure rfl
  | error fault =>
      cases fault with
      | failed kind => exact .fail kind hnear
      | _ => exact .throw _

/-- Computations that follow one another write the same text when they are captured. -/
theorem capture (hfollows : Follows tolerance related first second) :
    Follows tolerance (fun value other => related value.1 other.1 ∧ value.2 = other.2)
      (capture first) (capture second) := by
  refine ⟨fun ⟨engine, out⟩ => ?_⟩
  simp only [Exec.capture]
  cases hfirst : first ⟨engine, ""⟩ with
  | ok value after =>
      obtain ⟨other, hsecond, hrelated⟩ := hfollows.of_ok hfirst
      rw [hsecond]
      exact ⟨(other, after.out), rfl, hrelated, rfl⟩
  | error stop after =>
      rcases hfollows.of_error hfirst with hexcused | ⟨other, hsecond, halike⟩
      · exact .inl hexcused
      · rw [hsecond]
        exact .inr ⟨other, rfl, halike⟩

/-- A nested script is followed by the same script with commands that follow. -/
theorem nested {run run' : Runner S} (script : String)
    (hscript : Follows tolerance Eq (sequenceAll run (Token.scan script))
      (sequenceAll run' (Token.scan script))) :
    Follows tolerance Eq (nested run script) (nested run' script) := by
  refine ⟨fun frame => ?_⟩
  cases hlimit : frame.exceededLimit? with
  | some limit =>
      rw [nested_of_exceeded run hlimit, nested_of_exceeded run' hlimit]
      exact .inr ⟨_, rfl, .refl _⟩
  | none =>
      cases hfirst : sequenceAll run (Token.scan script) frame.enter with
      | ok value after =>
          obtain ⟨_, hsecond, rfl⟩ := hscript.of_ok hfirst
          rw [nested_of_ok hlimit hfirst, nested_of_ok hlimit hsecond]
          cases after.leave? with
          | some outer => exact ⟨(), rfl, rfl⟩
          | none => exact .inr ⟨_, rfl, .refl _⟩
      | error stop after =>
          rw [nested_of_error hlimit hfirst]
          rcases hscript.of_error hfirst with hexcused | ⟨other, hsecond, halike⟩
          · cases after.leave? with
            | some outer => exact .inl (tolerance.excuses_inScript stop script hexcused)
            | none => exact .inl (tolerance.excuses_defect stop hexcused)
          · rw [nested_of_error hlimit hsecond]
            cases after.leave? with
            | some outer => exact .inr ⟨_, rfl, halike.inScript script⟩
            | none => exact .inr ⟨_, rfl, .refl _⟩

end Follows

end Exec

end AtScript
