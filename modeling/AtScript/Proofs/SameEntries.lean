import Mathlib.Data.List.Nodup
import AtScript.Proofs.Judgement
import AtScript.Proofs.StoreLaws

/-! # Stores that hold the same entries

Two stores that hold the same entries may list their keys in different orders. Nothing that a
command reads from one key or writes to one key depends on that order, and neither does clearing an
array, although it walks over the keys. The computations below run on two such stores at once and do
the same on both, unless the first one stops because it would look at the order.
-/

namespace AtScript

/-! ## Stores -/

namespace Store

variable {S T : Type} [Store S] [Store T]

/-- Two stores hold the same raw texts under the same keys. -/
def SameEntries (first : S) (second : T) : Prop :=
  ∀ key, get? first key = get? second key

namespace SameEntries

variable {first : S} {second : T}

theorem get_eq (hsame : SameEntries first second) (key : String) :
    get first key = get second key := by
  rw [get, get, hsame key]

theorem getInt_eq (hsame : SameEntries first second) (key : String) :
    getInt first key = getInt second key := by
  delta getInt
  rw [hsame.get_eq key]

variable [LawfulStore S] [LawfulStore T]

theorem set (hsame : SameEntries first second) (key value : String) :
    SameEntries (Store.set first key value) (Store.set second key value) := by
  intro other
  rw [Store.set, Store.set, LawfulStore.get?_insert, LawfulStore.get?_insert, hsame other]

/-- The keys are the same, in one order or another. -/
theorem keys_perm (hsame : SameEntries first second) : (keys first).Perm (keys second) := by
  rw [List.perm_ext_iff_of_nodup (LawfulStore.nodup_keys first) (LawfulStore.nodup_keys second)]
  intro key
  rw [LawfulStore.mem_keys, LawfulStore.mem_keys, hsame key]

theorem entriesFrom_perm (hsame : SameEntries first second) (start : String) :
    (entriesFrom first start).Perm (entriesFrom second start) := by
  have hget : (fun key => (key, get first key)) = fun key => (key, get second key) := by
    funext key
    rw [hsame.get_eq key]
  rw [entriesFrom, entriesFrom, hget]
  exact (hsame.keys_perm.filter _).map _

/-- There is no order in which less than two entries could differ. -/
theorem entriesFrom_eq (hsame : SameEntries first second) {start : String}
    (hlength : (entriesFrom first start).length ≤ 1) :
    entriesFrom first start = entriesFrom second start := by
  have hperm := hsame.entriesFrom_perm start
  match hentries : entriesFrom first start with
  | [] =>
      rw [hentries] at hperm
      exact hperm.nil_eq
  | [entry] =>
      rw [hentries] at hperm
      exact hperm.singleton_eq
  | entry :: other :: rest =>
      rw [hentries] at hlength
      simp at hlength

theorem exchange (hsame : SameEntries first second) (key other : String) :
    SameEntries (Primitive.exchange key other first) (Primitive.exchange key other second) := by
  simp only [Primitive.exchange, hsame.get_eq]
  exact (hsame.set key _).set other _

end SameEntries

variable [LawfulStore S] [LawfulStore T]

/-- The cells of an array are cleared in whatever order they are found. -/
theorem SameEntries.clearCells {first : S} {second : T} (hsame : SameEntries first second)
    (array : String) :
    SameEntries (Primitive.clearCells array first) (Primitive.clearCells array second) := by
  intro key
  have hfound : key ∈ (entriesFrom first (Cell.keyStart array)).map Prod.fst ↔
      key ∈ (entriesFrom second (Cell.keyStart array)).map Prod.fst :=
    ((hsame.entriesFrom_perm _).map Prod.fst).mem_iff
  rw [Primitive.clearCells, Primitive.clearCells, get?_clear_keys, get?_clear_keys, hsame key]
  simp only [hfound]

end Store

/-! ## Engines and frames -/

section

variable {S T : Type} [Store S] [Store T]

/-- Two engines that differ at most in the order of their keys. -/
structure Engine.Agrees (first : Engine S) (second : Engine T) : Prop where
  store : Store.SameEntries first.store second.store
  inbox : first.inbox = second.inbox
  sent : first.sent = second.sent
  options : first.options = second.options
  generator : first.generator = second.generator
  depth : first.depth = second.depth

structure Frame.Agrees (first : Frame S) (second : Frame T) : Prop where
  engine : first.engine.Agrees second.engine
  out : first.out = second.out

theorem Engine.Agrees.refl (engine : Engine S) : engine.Agrees engine :=
  ⟨fun _ => rfl, rfl, rfl, rfl, rfl, rfl⟩

/-- Engines that both agree with a third one agree with each other. -/
theorem Engine.Agrees.both {R : Type} [Store R] {engine : Engine R} {first : Engine S}
    {second : Engine T} (hfirst : engine.Agrees first) (hsecond : engine.Agrees second) :
    first.Agrees second where
  store key := (hfirst.store key).symm.trans (hsecond.store key)
  inbox := hfirst.inbox.symm.trans hsecond.inbox
  sent := hfirst.sent.symm.trans hsecond.sent
  options := hfirst.options.symm.trans hsecond.options
  generator := hfirst.generator.symm.trans hsecond.generator
  depth := hfirst.depth.symm.trans hsecond.depth

theorem Frame.Agrees.both {R : Type} [Store R] {frame : Frame R} {first : Frame S}
    {second : Frame T} (hfirst : frame.Agrees first) (hsecond : frame.Agrees second) :
    first.Agrees second where
  engine := hfirst.engine.both hsecond.engine
  out := hfirst.out.symm.trans hsecond.out

namespace Frame.Agrees

variable {first : Frame S} {second : Frame T}

theorem write (hagrees : first.Agrees second) (text : String) :
    (first.write text).Agrees (second.write text) where
  engine := hagrees.engine
  out := congrArg (· ++ text) hagrees.out

theorem mapStore (hagrees : first.Agrees second) {change : S → S} {change' : T → T}
    (hchange : Store.SameEntries (change first.engine.store) (change' second.engine.store)) :
    (first.mapStore change).Agrees (second.mapStore change') where
  engine := { hagrees.engine with store := hchange }
  out := hagrees.out

theorem withGenerator (hagrees : first.Agrees second) (generator : Random.Generator) :
    (first.withGenerator generator).Agrees (second.withGenerator generator) where
  engine := { hagrees.engine with generator := rfl }
  out := hagrees.out

theorem withInbox (hagrees : first.Agrees second) (texts : List String) :
    (first.withInbox texts).Agrees (second.withInbox texts) where
  engine := { hagrees.engine with inbox := rfl }
  out := hagrees.out

theorem send (hagrees : first.Agrees second) (text : String) :
    (first.send text).Agrees (second.send text) where
  engine := { hagrees.engine with sent := congrArg (text :: ·) hagrees.engine.sent }
  out := hagrees.out

theorem enter (hagrees : first.Agrees second) : first.enter.Agrees second.enter where
  engine := { hagrees.engine with depth := congrArg (· + 1) hagrees.engine.depth }
  out := hagrees.out

theorem exceededLimit?_eq (hagrees : first.Agrees second) :
    first.exceededLimit? = second.exceededLimit? := by
  rw [exceededLimit?, exceededLimit?, hagrees.engine.options, hagrees.engine.depth]

/-- Both frames leave a nested script, or none does. -/
theorem leave? (hagrees : first.Agrees second) :
    (∃ outer outer', first.leave? = some outer ∧ second.leave? = some outer' ∧
      outer.Agrees outer') ∨ first.leave? = none ∧ second.leave? = none := by
  rw [Frame.leave?, Frame.leave?, ← hagrees.engine.depth]
  cases first.engine.depth with
  | zero => exact .inr ⟨rfl, rfl⟩
  | succ depth =>
      exact .inl ⟨_, _, rfl, rfl, { hagrees.engine with depth := rfl }, hagrees.out⟩

end Frame.Agrees

end

/-! ## Computations on two stores -/

namespace Exec

variable {S T α β : Type} [Store S] [Store T]

/-- Two runs end alike: with the same value or for the same reason, and in frames that agree. A
first run that ends in a defect asks nothing of the second one. -/
inductive EndsAlike : EStateM.Result (Stop RunError) (Frame S) α →
    EStateM.Result (Stop RunError) (Frame T) α → Prop
  | ok {value : α} {after : Frame S} {after' : Frame T} (hagrees : after.Agrees after') :
      EndsAlike (.ok value after) (.ok value after')
  | error {stop : Stop RunError} {after : Frame S} {after' : Frame T}
      (hagrees : after.Agrees after') : EndsAlike (.error stop after) (.error stop after')
  | defect {after : Frame S} {result : EStateM.Result (Stop RunError) (Frame T) α} :
      EndsAlike (.error .defect after) result

/-- Two runs that end like a third one end like each other, unless that one ends in a defect. -/
theorem EndsAlike.both {R : Type} [Store R]
    {result : EStateM.Result (Stop RunError) (Frame R) α}
    {first : EStateM.Result (Stop RunError) (Frame S) α}
    {second : EStateM.Result (Stop RunError) (Frame T) α} (hfirst : EndsAlike result first)
    (hsecond : EndsAlike result second) (hdefect : ∀ after, result ≠ .error .defect after) :
    EndsAlike first second := by
  cases hfirst with
  | ok hagrees =>
      cases hsecond with
      | ok hagrees' => exact .ok (hagrees.both hagrees')
  | error hagrees =>
      cases hsecond with
      | error hagrees' => exact .error (hagrees.both hagrees')
      | defect => exact absurd rfl (hdefect _)
  | defect => exact absurd rfl (hdefect _)

/-- From frames that agree, the second computation ends like the first one. -/
structure Mirrors (first : Exec S α) (second : Exec T α) : Prop where
  of_agrees : ∀ {frame other}, frame.Agrees other → EndsAlike (first frame) (second other)

namespace Mirrors

variable {first : Exec S α} {second : Exec T α}

theorem pure (value : α) : Mirrors (S := S) (T := T) (pure value) (pure value) :=
  ⟨fun hagrees => .ok hagrees⟩

theorem throw (stop : Stop RunError) :
    Mirrors (S := S) (T := T) (α := α) (throw stop) (throw stop) :=
  ⟨fun hagrees => .error hagrees⟩

theorem fail (kind : ErrorKind) (span : Span) :
    Mirrors (S := S) (T := T) (α := α) (fail kind span) (fail kind span) :=
  .throw _

theorem defect (second : Exec T α) : Mirrors (S := S) (MonadExcept.throw .defect) second :=
  ⟨fun _ => .defect⟩

theorem bind {next : α → Exec S β} {next' : α → Exec T β} (hfirst : Mirrors first second)
    (hnext : ∀ value, Mirrors (next value) (next' value)) :
    Mirrors (first >>= next) (second >>= next') where
  of_agrees {frame other} hagrees := by
    have hends := hfirst.of_agrees hagrees
    rw [bind_apply, bind_apply]
    generalize first frame = result, second other = result' at hends
    cases hends with
    | ok hagrees => exact (hnext _).of_agrees hagrees
    | error hagrees => exact .error hagrees
    | defect => exact .defect

/-- Both stores are read, from frames that agree. -/
theorem store_bind_at {frame : Frame S} {other : Frame T} (hagrees : frame.Agrees other)
    {next : S → Exec S β} {next' : T → Exec T β}
    (hnext : ∀ current', Store.SameEntries frame.engine.store current' →
      Mirrors (next frame.engine.store) (next' current')) :
    EndsAlike ((store >>= next) frame) ((store >>= next') other) :=
  (hnext _ hagrees.engine.store).of_agrees hagrees

theorem store_bind {next : S → Exec S β} {next' : T → Exec T β}
    (hnext : ∀ current current', Store.SameEntries current current' →
      Mirrors (next current) (next' current')) :
    Mirrors (store >>= next) (store >>= next') where
  of_agrees hagrees := store_bind_at hagrees (hnext _)

theorem modify {change : Frame S → Frame S} {change' : Frame T → Frame T}
    (hchange : ∀ {frame other}, frame.Agrees other → (change frame).Agrees (change' other)) :
    Mirrors (modify change : Exec S Unit) (modify change' : Exec T Unit) :=
  ⟨fun hagrees => .ok (hchange hagrees)⟩

theorem write (text : String) : Mirrors (S := S) (T := T) (write text) (write text) :=
  .modify fun hagrees => hagrees.write text

/-- What is written of a stored value is the same. -/
theorem write_stored (key : String) (text : String → String) :
    Mirrors (S := S) (T := T) (do Exec.write (text (Store.get (← store) key)))
      (do Exec.write (text (Store.get (← store) key))) := by
  apply store_bind
  intro current current' hsame
  rw [hsame.get_eq]
  exact write _

theorem mapStore {change : S → S} {change' : T → T}
    (hchange : ∀ {current current'}, Store.SameEntries current current' →
      Store.SameEntries (change current) (change' current')) :
    Mirrors (mapStore change) (mapStore change') :=
  .modify fun hagrees => hagrees.mapStore (hchange hagrees.engine.store)

theorem ofValue (span : Span) (value : Except ValueError α) :
    Mirrors (S := S) (T := T) (ofValue span value) (ofValue span value) := by
  cases value with
  | ok value => exact .pure value
  | error error => exact .throw _

theorem ofFault (span : Span) (value : Except Fault α) :
    Mirrors (S := S) (T := T) (ofFault span value) (ofFault span value) := by
  cases value with
  | ok value => exact .pure value
  | error fault => exact .throw _

/-- What is captured is the same text. -/
theorem capture (haction : Mirrors first second) : Mirrors (capture first) (capture second) where
  of_agrees {frame other} hagrees := by
    obtain ⟨engine, out⟩ := frame
    obtain ⟨engine', out'⟩ := other
    obtain ⟨hengine, rfl⟩ := hagrees
    have hends : EndsAlike (first ⟨engine, ""⟩) (second ⟨engine', ""⟩) :=
      haction.of_agrees ⟨hengine, rfl⟩
    rw [Exec.capture, Exec.capture]
    generalize first ⟨engine, ""⟩ = result, second ⟨engine', ""⟩ = result' at hends
    cases hends with
    | ok hagrees =>
        dsimp only
        rw [hagrees.out]
        exact .ok ⟨hagrees.engine, rfl⟩
    | error hagrees => exact .error ⟨hagrees.engine, rfl⟩
    | defect => exact .defect

/-- A nested script ends like the same script on the other store. -/
theorem nested {run : Runner S} {run' : Runner T} (script : String)
    (hscript : Mirrors (sequenceAll run (Token.scan script))
      (sequenceAll run' (Token.scan script))) :
    Mirrors (nested run script) (nested run' script) where
  of_agrees {frame other} hagrees := by
    have hends := hscript.of_agrees hagrees.enter
    rw [Exec.nested, Exec.nested, ← hagrees.exceededLimit?_eq]
    cases frame.exceededLimit? with
    | some limit => exact .error hagrees
    | none =>
        dsimp only
        generalize sequenceAll run (Token.scan script) frame.enter = result,
          sequenceAll run' (Token.scan script) other.enter = result' at hends
        cases hends with
        | ok hagrees =>
            rcases hagrees.leave? with ⟨outer, outer', hleave, hleave', houter⟩ | ⟨hleave, hleave'⟩
            · simp only [hleave, hleave']
              exact .ok houter
            · simp only [hleave]
              exact .defect
        | error hagrees =>
            rcases hagrees.leave? with ⟨outer, outer', hleave, hleave', houter⟩ | ⟨hleave, hleave'⟩
            · simp only [hleave, hleave']
              exact .error houter
            · simp only [hleave]
              exact .defect
        | @defect after =>
            cases hleave : after.leave? with
            | some outer =>
                simp only [hleave, Stop.map]
                exact .defect
            | none =>
                simp only [hleave]
                exact .defect

end Mirrors

end Exec

end AtScript
