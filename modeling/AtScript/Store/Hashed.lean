import Std.Data.HashMap
import AtScript.Store.Basic

/-! # Stores without an order -/

namespace AtScript

/-- A store that lists its keys in an order of no meaning. -/
abbrev HashedStore : Type := Std.HashMap String String

instance : Store HashedStore where
  get? store key := store[key]?
  insert store key value := Std.HashMap.insert store key value
  keys store := Std.HashMap.keys store

instance : LawfulStore HashedStore where
  get?_insert store key value other := by
    change (Std.HashMap.insert store key value)[other]? = _
    rw [Std.HashMap.getElem?_insert]
    by_cases h : other = key
    · rw [if_pos (beq_iff_eq.mpr h.symm), if_pos h]
    · rw [if_neg (fun heq => h (beq_iff_eq.mp heq).symm), if_neg h]
      rfl
  mem_keys store key := by
    change key ∈ Std.HashMap.keys store ↔ store[key]?.isSome
    rw [Std.HashMap.mem_keys, Std.HashMap.isSome_getElem?_iff_mem]
  nodup_keys _ := Std.HashMap.nodup_keys

end AtScript
