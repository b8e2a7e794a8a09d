import AtScript.Text.IgnoreCase

/-! # Replacement of every occurrence

Occurrences are found from left to right and do not overlap. Text that has been put in is never
searched again. A pattern without characters occurs nowhere.
-/

namespace AtScript.Text

/-- Replaces `pattern` in the characters that follow the next `skip` ones, which belong to an
occurrence already replaced. -/
def replaceFrom (pattern replacement : List Char) : Nat → List Char → List Char
  | _, [] => []
  | skip + 1, _ :: rest => replaceFrom pattern replacement skip rest
  | 0, c :: rest =>
    if pattern.isPrefixOf (c :: rest) then
      replacement ++ replaceFrom pattern replacement (pattern.length - 1) rest
    else
      c :: replaceFrom pattern replacement 0 rest

/-- Whether a byte is among the first `count` bytes of a text. -/
def hasByte (text : String) (byte : UInt8) : (count : Nat) → count ≤ text.utf8ByteSize → Bool
  | 0, _ => false
  | count + 1, hcount =>
    text.getUTF8Byte ⟨count⟩ hcount == byte || hasByte text byte count (Nat.le_of_succ_le hcount)

/-- Whether a text has the first byte of a pattern, without which the pattern cannot occur. -/
def mayContain (text pattern : String) : Bool :=
  if hpattern : 0 < pattern.utf8ByteSize then
    hasByte text (pattern.getUTF8Byte 0 hpattern) text.utf8ByteSize (Nat.le_refl _)
  else
    false

/-- A text in which every occurrence of `pattern` is replaced. -/
def replaceAll (text pattern replacement : String) : String :=
  if mayContain text pattern then
    String.ofList (replaceFrom pattern.toList replacement.toList 0 text.toList)
  else
    text

theorem hasByte_eq_true {text : String} {byte : UInt8} {count : Nat}
    {hcount : count ≤ text.utf8ByteSize} {place : Nat} (hplace : place < count)
    (hbyte : text.getUTF8Byte ⟨place⟩ (Nat.lt_of_lt_of_le hplace hcount) = byte) :
    hasByte text byte count hcount = true := by
  induction count with
  | zero => exact absurd hplace (Nat.not_lt_zero place)
  | succ count ih =>
    rw [hasByte, Bool.or_eq_true]
    rcases Nat.lt_succ_iff_lt_or_eq.mp hplace with hlt | rfl
    · exact .inr (ih hlt hbyte)
    · exact .inl (beq_iff_eq.mpr hbyte)

/-- A text that has a pattern's first character also has its first byte. -/
theorem mayContain_of_mem {text : String} {c : Char} {rest : List Char} (hmem : c ∈ text.toList) :
    mayContain text (String.ofList (c :: rest)) = true := by
  obtain ⟨before, after, hsplit⟩ := List.append_of_mem hmem
  obtain rfl : text = String.ofList before ++ (String.singleton c ++ String.ofList after) := by
    rw [← String.ofList_cons, ← String.ofList_append, ← hsplit, String.ofList_toList]
  have hfirst : 0 < (String.singleton c).utf8ByteSize := by
    rw [String.utf8ByteSize_singleton]
    exact Char.utf8Size_pos c
  have hplace : (String.ofList before).utf8ByteSize <
      (String.ofList before ++ (String.singleton c ++ String.ofList after)).utf8ByteSize := by
    rw [String.utf8ByteSize_append, String.utf8ByteSize_append]
    omega
  have hpattern : 0 < (String.singleton c ++ String.ofList rest).utf8ByteSize := by
    rw [String.utf8ByteSize_append]
    omega
  rw [String.ofList_cons, mayContain, dif_pos hpattern]
  refine hasByte_eq_true hplace ?_
  simp only [String.getUTF8Byte_eq_getElem, String.toByteArray_append]
  rw [ByteArray.getElem_append_right, ByteArray.getElem_append_left,
    ByteArray.getElem_append_left]
  · simp only [String.size_toByteArray, Nat.sub_self]
    rfl
  · rw [String.size_toByteArray, Nat.sub_self]
    exact hfirst
  · exact Nat.le_refl _

theorem replaceFrom_eq_self {c : Char} {pattern : List Char} (replacement : List Char)
    {chars : List Char} (hmem : c ∉ chars) :
    replaceFrom (c :: pattern) replacement 0 chars = chars := by
  induction chars with
  | nil => rfl
  | cons d rest ih =>
    have hne : ¬c = d := fun heq => hmem (heq ▸ List.mem_cons_self)
    rw [replaceFrom, List.isPrefixOf, beq_eq_false_iff_ne.mpr hne, Bool.false_and,
      if_neg Bool.false_ne_true, ih fun hrest => hmem (List.mem_cons_of_mem d hrest)]

/-- Replacing is replacing in the characters. -/
theorem toList_replaceAll (text pattern replacement : String) (hpattern : pattern ≠ "") :
    (replaceAll text pattern replacement).toList =
      replaceFrom pattern.toList replacement.toList 0 text.toList := by
  rw [replaceAll]
  split
  · rw [String.toList_ofList]
  next hnot =>
    cases hchars : pattern.toList with
    | nil => exact absurd (String.toList_eq_nil_iff.mp hchars) hpattern
    | cons c rest =>
      rw [← @String.ofList_toList pattern, hchars] at hnot
      rw [replaceFrom_eq_self]
      exact fun hmem => hnot (mayContain_of_mem hmem)

end AtScript.Text
