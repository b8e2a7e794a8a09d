import AtScript.Engine.Primitive
import AtScript.Proofs.Blank
import AtScript.Store.Dictionary

/-! # What writing values does to a store

Commands change a store in one way only: they write values, one key after the other. A text that is
written this way is never blank, and it is the null text in just one spelling. A dictionary keeps
its keys in their places and takes new ones in at the end.
-/

namespace AtScript

/-! ## Texts that can be written -/

namespace Value

/-- Whether a text is the null text or, apart from white space and letter case, neither that nor
empty. -/
def IsProper (text : String) : Prop :=
  text = null ∨
    Text.isBlank text = false ∧ Text.sameIgnoringCase (Text.trim text) null = false

instance (text : String) : Decidable (IsProper text) :=
  inferInstanceAs (Decidable (_ ∨ _))

theorem isProper_of_not_isNull {text : String} (hnull : isNull text = false) : IsProper text := by
  rw [isNull, Bool.or_eq_false_iff] at hnull
  obtain ⟨hempty, hsame⟩ := hnull
  refine .inr ⟨?_, hsame⟩
  rw [← Bool.not_eq_true, Text.isBlank_iff_trim, ← String.isEmpty_iff, hempty]
  exact Bool.false_ne_true

end Value

/-! ## Stores -/

namespace Store

variable {S : Type} [Store S]

/-- The stores that come from a store by writing values. -/
inductive Writes (store : S) : S → Prop
  | refl : Writes store store
  | set {after : S} (hwrites : Writes store after) (key value : String) :
      Writes store (Store.set after key value)

theorem Writes.trans {store middle after : S} (hfirst : Writes store middle)
    (hsecond : Writes middle after) : Writes store after := by
  induction hsecond with
  | refl => exact hfirst
  | set _ key value ih => exact ih.set key value

/-- A value is written as a proper text. -/
theorem exists_set_eq_insert (store : S) (key value : String) :
    ∃ text, Value.IsProper text ∧ Store.set store key value = Store.insert store key text := by
  rw [Store.set]
  split
  next hnull => exact ⟨Value.null, .inl rfl, rfl⟩
  next hnull =>
    rw [Bool.not_eq_true] at hnull
    exact ⟨value, Value.isProper_of_not_isNull hnull, rfl⟩

/-- Whether all raw texts of a store are proper. -/
def Proper (store : S) : Prop :=
  ∀ key text, Store.get? store key = some text → Value.IsProper text

variable [LawfulStore S]

/-- A raw text is the old one, or it was written. -/
theorem Writes.get?_eq_or_isProper {store after : S} (hwrites : Writes store after)
    {key text : String} (htext : Store.get? after key = some text) :
    Store.get? store key = some text ∨ Value.IsProper text := by
  induction hwrites with
  | refl => exact .inl htext
  | @set after hwrites other value ih =>
      obtain ⟨written, hproper, hset⟩ := exists_set_eq_insert after other value
      rw [hset, LawfulStore.get?_insert] at htext
      split at htext
      · cases htext
        exact .inr hproper
      · exact ih htext

theorem Writes.proper {store after : S} (hwrites : Writes store after) (hproper : Proper store) :
    Proper after := by
  intro key text htext
  rcases hwrites.get?_eq_or_isProper htext with hold | hnew
  · exact hproper key text hold
  · exact hnew

end Store

/-- Writing values moves no key; new keys come last. -/
theorem Dictionary.keys_prefix_of_writes {dictionary after : Dictionary}
    (hwrites : Store.Writes dictionary after) : dictionary.keys <+: after.keys := by
  induction hwrites with
  | refl => exact List.prefix_rfl
  | @set after hwrites key value ih =>
      obtain ⟨text, -, hset⟩ := Store.exists_set_eq_insert after key value
      have hkeys : dictionary.keys <+: (after.insert key text).keys := by
        rw [Dictionary.keys_insert]
        split
        · exact ih
        · exact ih.trans (List.prefix_append _ _)
      rw [hset]
      exact hkeys

/-! ## Commands -/

namespace Primitive

variable {S : Type} [Store S]

theorem exchange_writes (first second : String) (store : S) :
    Store.Writes store (exchange first second store) :=
  (Store.Writes.refl.set first _).set second _

/-- The cells of an array are cleared one after the other. -/
theorem clearCells_writes (array : String) (store : S) :
    Store.Writes store (clearCells array store) := by
  have hfold (keys : List String) {after : S} (hwrites : Store.Writes store after) :
      Store.Writes store (keys.foldl (fun rest key => Store.set rest key "") after) := by
    induction keys generalizing after with
    | nil => exact hwrites
    | cons key keys ih => exact ih (hwrites.set key "")
  exact hfold _ .refl

end Primitive

end AtScript
