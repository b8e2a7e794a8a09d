import Std.Data.TreeMap
import AtScript.Store.Basic

/-! # Stores in key order -/

namespace AtScript

/-- A store that lists its keys in increasing order of their code points. -/
abbrev SortedStore : Type := Std.TreeMap String String

instance : Store SortedStore where
  get? store key := store[key]?
  insert store key value := Std.TreeMap.insert store key value
  keys store := Std.TreeMap.keys store

instance : LawfulStore SortedStore where
  get?_insert store key value other := by
    change (Std.TreeMap.insert store key value)[other]? = _
    rw [Std.TreeMap.getElem?_insert]
    by_cases h : other = key
    · rw [if_pos (Std.compare_eq_iff_eq.mpr h.symm), if_pos h]
    · rw [if_neg (fun heq => h (Std.compare_eq_iff_eq.mp heq).symm), if_neg h]
      rfl
  mem_keys store key := by
    change key ∈ Std.TreeMap.keys store ↔ store[key]?.isSome
    rw [Std.TreeMap.mem_keys, Std.TreeMap.isSome_getElem?_iff_mem]
  nodup_keys _ := Std.TreeMap.nodup_keys

end AtScript
