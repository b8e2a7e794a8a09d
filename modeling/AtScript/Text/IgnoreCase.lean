import AtScript.Text.Ascii

/-! # Comparison that ignores ASCII letter case

Only the letters `A` to `Z` have a second spelling here; every other character equals itself alone.
-/

namespace AtScript.Text

/-- A text with the letters `A` to `Z` in lower case. -/
def foldCase (text : String) : String :=
  text.map Char.toLower

/-- Whether two texts differ at most in the case of ASCII letters. Texts of different byte lengths
never do. -/
def sameIgnoringCase (first second : String) : Bool :=
  first.utf8ByteSize == second.utf8ByteSize && foldCase first == foldCase second

theorem utf8Size_toLower (c : Char) : c.toLower.utf8Size = c.utf8Size := by
  by_cases hupper : c.val ≥ 'A'.val ∧ c.val ≤ 'Z'.val
  · have hval : c.toLower.val = c.val + ('a'.val - 'A'.val) := congrArg Char.val (dif_pos hupper)
    have hle : c.val.toNat ≤ 90 := UInt32.le_iff_toNat_le.mp hupper.2
    have hlower : c.toLower.val ≤ 127 := by
      rw [hval, UInt32.le_iff_toNat_le, UInt32.toNat_add]
      change (c.val.toNat + 32) % 4294967296 ≤ 127
      omega
    have hsame : c.val ≤ 127 := UInt32.le_iff_toNat_le.mpr (Nat.le_trans hle (by decide))
    rw [Char.utf8Size_eq_one_iff.mpr hlower, Char.utf8Size_eq_one_iff.mpr hsame]
  · exact congrArg Char.utf8Size (dif_neg hupper)

theorem byteLength_map_toLower (chars : List Char) :
    byteLength (chars.map Char.toLower) = byteLength chars := by
  induction chars with
  | nil => rfl
  | cons c rest ih => rw [List.map_cons, byteLength, byteLength, utf8Size_toLower, ih]

theorem utf8ByteSize_foldCase (text : String) :
    (foldCase text).utf8ByteSize = text.utf8ByteSize := by
  rw [← byteLength_toList, ← byteLength_toList, foldCase, String.toList_map,
    byteLength_map_toLower]

theorem sameIgnoringCase_iff (first second : String) :
    sameIgnoringCase first second ↔ foldCase first = foldCase second := by
  rw [sameIgnoringCase, Bool.and_eq_true, beq_iff_eq, beq_iff_eq]
  refine ⟨And.right, fun hfold => ⟨?_, hfold⟩⟩
  rw [← utf8ByteSize_foldCase first, hfold, utf8ByteSize_foldCase]

/-- Texts that differ in letter case alone have the same letters. -/
theorem toLower_mem_foldCase {first second : String} (hsame : sameIgnoringCase first second = true)
    {c : Char} (hmem : c ∈ first.toList) : c.toLower ∈ (foldCase second).toList := by
  rw [← (sameIgnoringCase_iff first second).mp hsame, foldCase, String.toList_map]
  exact List.mem_map_of_mem hmem

/-- The characters after a prefix, when the text starts with that prefix. -/
def dropPrefix? : List Char → List Char → Option (List Char)
  | [], chars => some chars
  | _ :: _, [] => none
  | p :: ps, c :: cs => if p = c then dropPrefix? ps cs else none

/-- The characters after a prefix, when the text starts with that prefix up to ASCII case. -/
def dropPrefixIgnoringCase? : List Char → List Char → Option (List Char)
  | [], chars => some chars
  | _ :: _, [] => none
  | p :: ps, c :: cs =>
    if p.toLower = c.toLower then dropPrefixIgnoringCase? ps cs else none

/-- The characters before a suffix, when the text ends with that suffix. -/
def dropSuffix? (suffix chars : List Char) : Option (List Char) :=
  (dropPrefix? suffix.reverse chars.reverse).map List.reverse

theorem dropPrefix?_eq_some_iff (start chars rest : List Char) :
    dropPrefix? start chars = some rest ↔ chars = start ++ rest := by
  induction start generalizing chars with
  | nil => simp [dropPrefix?]
  | cons p start ih =>
      cases chars with
      | nil => simp [dropPrefix?]
      | cons c chars =>
          rw [dropPrefix?, List.cons_append, List.cons.injEq]
          split
          next hsame => rw [ih, and_iff_right hsame.symm]
          next hother => simp [Ne.symm hother]

theorem dropPrefixIgnoringCase?_eq_some_iff (start chars rest : List Char) :
    dropPrefixIgnoringCase? start chars = some rest ↔
      ∃ head, head.map Char.toLower = start.map Char.toLower ∧ chars = head ++ rest := by
  induction start generalizing chars with
  | nil => simp [dropPrefixIgnoringCase?, eq_comm]
  | cons p start ih =>
      cases chars with
      | nil =>
          apply iff_of_false nofun
          rintro ⟨head, hhead, hchars⟩
          rw [(List.append_eq_nil_iff.mp hchars.symm).1] at hhead
          cases hhead
      | cons c chars =>
          rw [dropPrefixIgnoringCase?]
          split
          next hsame =>
            rw [ih]
            constructor
            · rintro ⟨head, hhead, rfl⟩
              exact ⟨c :: head, by rw [List.map_cons, List.map_cons, hsame, hhead], rfl⟩
            · rintro ⟨head, hhead, hchars⟩
              cases head with
              | nil => simp at hhead
              | cons d head =>
                  rw [List.map_cons, List.map_cons, List.cons.injEq] at hhead
                  exact ⟨head, hhead.2, (List.cons.inj hchars).2⟩
          next hother =>
            apply iff_of_false nofun
            rintro ⟨head, hhead, hchars⟩
            cases head with
            | nil => simp at hhead
            | cons d head =>
                rw [List.map_cons, List.map_cons, List.cons.injEq] at hhead
                obtain ⟨rfl, -⟩ := List.cons.inj hchars
                exact hother hhead.1.symm

theorem dropSuffix?_eq_some_iff (ending chars rest : List Char) :
    dropSuffix? ending chars = some rest ↔ chars = rest ++ ending := by
  simp only [dropSuffix?, Option.map_eq_some_iff, dropPrefix?_eq_some_iff]
  constructor
  · rintro ⟨reversed, hchars, rfl⟩
    rw [← List.reverse_inj, hchars, List.reverse_append, List.reverse_reverse]
  · rintro rfl
    exact ⟨rest.reverse, List.reverse_append, List.reverse_reverse rest⟩

end AtScript.Text
