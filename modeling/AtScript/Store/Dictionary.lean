import Std.Data.TreeMap
import AtScript.Store.Basic

/-! # Dictionaries

A store that lists its keys in the order in which they were first written. Writing a key again
changes its text and leaves it in its place. The entries stand in an array in that order; an index
tells the place of each key.
-/

namespace AtScript

/-- An index that knows the place of every entry and no other place. -/
def IsIndex (entries : Array (String × String)) (index : Std.TreeMap String Nat) : Prop :=
  ∀ (key : String) (place : Nat),
    index[key]? = some place ↔ ∃ text, entries[place]? = some (key, text)

namespace IsIndex

variable {entries : Array (String × String)} {index : Std.TreeMap String Nat}

/-- Changing the text of an entry moves no key. -/
theorem set (hindex : IsIndex entries index) {key : String} {place : Nat}
    (hplace : index[key]? = some place) (value : String) :
    IsIndex (entries.setIfInBounds place (key, value)) index := by
  intro other position
  obtain ⟨old, hold⟩ := (hindex key place).mp hplace
  have hlt : place < entries.size := (Array.getElem?_eq_some_iff.mp hold).1
  rw [hindex, Array.getElem?_setIfInBounds]
  by_cases hposition : place = position
  · subst hposition
    rw [if_pos rfl, if_pos hlt, hold]
    simp
  · rw [if_neg hposition]

/-- A new entry takes the place behind all others. -/
theorem push (hindex : IsIndex entries index) {key : String} (hnone : index[key]? = none)
    (value : String) : IsIndex (entries.push (key, value)) (index.insert key entries.size) := by
  intro other position
  rw [Std.TreeMap.getElem?_insert, Array.getElem?_push]
  by_cases hother : key = other
  · subst hother
    rw [if_pos (Std.compare_eq_iff_eq.mpr rfl)]
    by_cases hposition : position = entries.size
    · simp [hposition]
    · have hne : ¬entries.size = position := fun heq => hposition heq.symm
      rw [if_neg hposition, ← hindex key position, hnone]
      simp [hne]
  · rw [if_neg (fun heq => hother (Std.compare_eq_iff_eq.mp heq)), hindex]
    by_cases hposition : position = entries.size
    · simp [hposition, hother]
    · rw [if_neg hposition]

/-- Every key has one place. -/
theorem place_unique (hindex : IsIndex entries index) {key first second : String}
    {place position : Nat} (hplace : entries[place]? = some (key, first))
    (hposition : entries[position]? = some (key, second)) : place = position := by
  have hleft := (hindex key place).mpr ⟨first, hplace⟩
  have hright := (hindex key position).mpr ⟨second, hposition⟩
  rw [hleft] at hright
  exact Option.some.inj hright

end IsIndex

/-- A store in insertion order. -/
structure Dictionary where
  /-- The entries, the first written first. -/
  entries : Array (String × String)
  /-- The place of each key among the entries. -/
  index : Std.TreeMap String Nat
  isIndex : IsIndex entries index

namespace Dictionary

/-- The dictionary without entries. -/
def empty : Dictionary := ⟨#[], ∅, fun _ _ => by simp⟩

instance : Inhabited Dictionary := ⟨empty⟩

/-- The raw text of a key. -/
def get? (dictionary : Dictionary) (key : String) : Option String :=
  (dictionary.index[key]?.bind (dictionary.entries[·]?)).map Prod.snd

/-- Writes the raw text of a key. -/
def insert : Dictionary → String → String → Dictionary
  | ⟨entries, index, isIndex⟩, key, value =>
    match hplace : index[key]? with
    | some place =>
      ⟨entries.setIfInBounds place (key, value), index, isIndex.set hplace value⟩
    | none =>
      let place := entries.size
      ⟨entries.push (key, value), index.insert key place, isIndex.push hplace value⟩

/-- The keys, the first written first. -/
def keys (dictionary : Dictionary) : List String :=
  (dictionary.entries.map Prod.fst).toList

instance : Store Dictionary where
  get? := get?
  insert := insert
  keys := keys

theorem get?_eq_some_iff (dictionary : Dictionary) (key value : String) :
    dictionary.get? key = some value ↔ (key, value) ∈ dictionary.entries := by
  rw [get?, Array.mem_iff_getElem?]
  constructor
  · intro hget
    obtain ⟨entry, hentry, rfl⟩ := Option.map_eq_some_iff.mp hget
    obtain ⟨place, hplace, hfound⟩ := Option.bind_eq_some_iff.mp hentry
    obtain ⟨text, htext⟩ := (dictionary.isIndex key place).mp hplace
    rw [htext] at hfound
    cases hfound
    exact ⟨place, htext⟩
  · rintro ⟨place, hplace⟩
    simp [(dictionary.isIndex key place).mpr ⟨value, hplace⟩, hplace]

theorem mem_keys (dictionary : Dictionary) (key : String) :
    key ∈ dictionary.keys ↔ (dictionary.get? key).isSome := by
  simp [keys, Option.isSome_iff_exists, get?_eq_some_iff]

theorem nodup_keys (dictionary : Dictionary) : dictionary.keys.Nodup := by
  rw [List.Nodup, List.pairwise_iff_getElem]
  intro place position hplace hposition hlt heq
  simp only [keys, Array.toList_map, List.getElem_map, Array.getElem_toList] at heq
  simp only [keys, Array.toList_map, List.length_map, Array.length_toList] at hplace hposition
  refine absurd ?_ (Nat.ne_of_lt hlt)
  have hsecond : dictionary.entries[position]? =
      some (dictionary.entries[place].1, dictionary.entries[position].2) := by
    rw [heq]
    exact Array.getElem?_eq_getElem hposition
  exact dictionary.isIndex.place_unique (Array.getElem?_eq_getElem hplace) hsecond

/-- A key that is written again keeps its place, and a new key comes last. -/
theorem keys_insert (dictionary : Dictionary) (key value : String) :
    (dictionary.insert key value).keys =
      if (dictionary.get? key).isSome then dictionary.keys else dictionary.keys ++ [key] := by
  obtain ⟨entries, index, isIndex⟩ := dictionary
  rw [insert]
  split
  next place hplace =>
    obtain ⟨text, htext⟩ := (isIndex key place).mp hplace
    obtain ⟨hlt, hentry⟩ := Array.getElem?_eq_some_iff.mp htext
    have hset : (entries.map Prod.fst).setIfInBounds place key =
        entries.map Prod.fst := by
      refine Array.ext (by simp) fun position hfirst hsecond => ?_
      rw [Array.getElem_setIfInBounds]
      split
      next hposition => simp [← hposition, hentry]
      · rfl
    rw [if_pos (by simp [get?, hplace, htext]), keys, keys, Array.map_setIfInBounds, hset]
  next hnone => simp [get?, keys, hnone]

theorem get?_insert (dictionary : Dictionary) (key value other : String) :
    (dictionary.insert key value).get? other =
      if other = key then some value else dictionary.get? other := by
  obtain ⟨entries, index, isIndex⟩ := dictionary
  rw [insert]
  split
  next place hplace =>
    obtain ⟨text, htext⟩ := (isIndex key place).mp hplace
    have hlt : place < entries.size := (Array.getElem?_eq_some_iff.mp htext).1
    by_cases hother : other = key
    · simp [get?, hother, hplace, hlt]
    · simp only [get?, if_neg hother]
      cases hposition : index[other]? with
      | none => rfl
      | some position =>
        obtain ⟨found, hfound⟩ := (isIndex other position).mp hposition
        have hne : place ≠ position := by
          rintro rfl
          rw [htext] at hfound
          cases hfound
          exact hother rfl
        simp [hne]
  next hnone =>
    simp only [get?, Std.TreeMap.getElem?_insert]
    by_cases hother : other = key
    · simp [hother]
    · rw [if_neg hother, if_neg fun heq => hother (Std.compare_eq_iff_eq.mp heq).symm]
      cases hposition : index[other]? with
      | none => rfl
      | some position =>
        obtain ⟨found, hfound⟩ := (isIndex other position).mp hposition
        have hlt : position < entries.size :=
          (Array.getElem?_eq_some_iff.mp hfound).1
        simp [Array.getElem?_push, Nat.ne_of_lt hlt]

end Dictionary

instance : LawfulStore Dictionary where
  get?_insert := Dictionary.get?_insert
  mem_keys := Dictionary.mem_keys
  nodup_keys := Dictionary.nodup_keys

end AtScript
