import AtScript.Proofs.IdleScripts
import AtScript.Store.Basic

/-! # Reading what was written

A value that is neither blank nor the null text is read back as it was written, and every other one
as the empty text. Writing a key changes no other key.
-/

namespace AtScript

namespace Value

theorem sameIgnoringCase_null_iff (text : String) :
    Text.sameIgnoringCase text null = true ↔ Text.foldCase text = null := by
  have hlower : Text.foldCase null = null := by decide +kernel
  rw [Text.sameIgnoringCase_iff, hlower]

theorem isNull_iff (text : String) :
    isNull text = true ↔ Text.trim text = "" ∨ Text.foldCase (Text.trim text) = null := by
  rw [isNull, Bool.or_eq_true, String.isEmpty_iff, sameIgnoringCase_null_iff]

/-- The null text in any letter case has no white space to trim. -/
theorem isNull_of_sameIgnoringCase {text : String}
    (hsame : Text.sameIgnoringCase text null = true) : isNull text = true := by
  have hends : Text.hasBlankEnd text = false := by
    have hblank {c : Char} (hmem : c ∈ text.toList) : Text.isBlankChar c = false :=
      Text.isBlankChar_of_not_isMark (isMark_of_mem_null hsame hmem)
    rw [Text.hasBlankEnd, String.front?_eq, String.back?_eq, Bool.or_eq_false_iff]
    constructor
    · cases hfirst : text.toList.head? with
      | none => rfl
      | some c => exact hblank (List.mem_of_mem_head? hfirst)
    · cases hlast : text.toList.getLast? with
      | none => rfl
      | some c => exact hblank (List.mem_of_getLast? hlast)
  have htrim : Text.trim text = text := by rw [Text.trim, hends, if_neg Bool.false_ne_true]
  rw [isNull, htrim, hsame, Bool.or_true]

theorem sameIgnoringCase_null : Text.sameIgnoringCase null null = true :=
  (Text.sameIgnoringCase_iff null null).mpr rfl

theorem isNull_empty : isNull "" = true := by decide +kernel

end Value

namespace Store

variable {S : Type} [Store S]

theorem mem_entriesFrom_iff (store : S) (start key : String) :
    key ∈ (entriesFrom store start).map Prod.fst ↔
      key ∈ keys store ∧ (afterStart? start key).isSome := by
  simp [entriesFrom, List.mem_filter]

variable [LawfulStore S]

/-- What is read from a key just after a value was written to it. -/
theorem get_set (store : S) (key value : String) :
    get (set store key value) key = if Value.isNull value then "" else value := by
  rw [get, set, LawfulStore.get?_insert, if_pos rfl]
  cases hnull : Value.isNull value with
  | true => simp only [if_true, Value.sameIgnoringCase_null]
  | false =>
      have hsame : Text.sameIgnoringCase value Value.null = false := by
        rw [← Bool.not_eq_true]
        intro hsame
        rw [Value.isNull_of_sameIgnoringCase hsame] at hnull
        cases hnull
      simp only [Bool.false_eq_true, if_false, hsame]

/-- Writing a key leaves all other keys as they are. -/
theorem get?_set_of_ne (store : S) {name key : String} (hkey : key ≠ name) (value : String) :
    get? (set store name value) key = get? store key := by
  rw [set, LawfulStore.get?_insert, if_neg hkey]

theorem get_set_of_ne (store : S) {name key : String} (hkey : key ≠ name) (value : String) :
    get (set store name value) key = get store key := by
  rw [get, get?_set_of_ne store hkey, get]

theorem mem_keys_set (store : S) (name value key : String) :
    key ∈ keys (set store name value) ↔ key = name ∨ key ∈ keys store := by
  rw [LawfulStore.mem_keys, LawfulStore.mem_keys, set, LawfulStore.get?_insert]
  split
  next hkey => simp [hkey]
  next hkey => simp [hkey]

/-- Clearing keys one after the other clears exactly these keys. -/
theorem get?_clear_keys (names : List String) (store : S) (key : String) :
    get? (names.foldl (fun rest name => set rest name "") store) key =
      if key ∈ names then some Value.null else get? store key := by
  induction names generalizing store with
  | nil => simp
  | cons name names ih =>
      rw [List.foldl_cons, ih]
      by_cases hkey : key = name
      · rw [hkey, set, LawfulStore.get?_insert, if_pos (rfl : name = name),
          if_pos Value.isNull_empty]
        simp
      · rw [get?_set_of_ne store hkey]
        simp [hkey]

end Store

end AtScript
