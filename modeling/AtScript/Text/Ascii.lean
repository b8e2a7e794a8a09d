/-! # ASCII texts

A text is ASCII when each of its characters takes one byte.
-/

namespace AtScript.Text

/-- The number of bytes that some characters take. -/
def byteLength : List Char → Nat
  | [] => 0
  | c :: rest => c.utf8Size + byteLength rest

theorem byteLength_append (chars more : List Char) :
    byteLength (chars ++ more) = byteLength chars + byteLength more := by
  induction chars with
  | nil => rw [List.nil_append, byteLength, Nat.zero_add]
  | cons c rest ih => rw [List.cons_append, byteLength, byteLength, ih, Nat.add_assoc]

theorem byteLength_toList (text : String) : byteLength text.toList = text.utf8ByteSize := by
  have hchars : ∀ chars : List Char,
      byteLength chars = (String.ofList chars).utf8ByteSize := by
    intro chars
    induction chars with
    | nil => rfl
    | cons c rest ih =>
      rw [String.ofList_cons, String.utf8ByteSize_append, String.utf8ByteSize_singleton,
        byteLength, ih]
  rw [hchars, String.ofList_toList]

theorem length_le_byteLength (chars : List Char) : chars.length ≤ byteLength chars := by
  induction chars with
  | nil => exact Nat.le_refl 0
  | cons c rest ih =>
    have hpos := Char.utf8Size_pos c
    rw [List.length_cons, byteLength]
    omega

theorem lt_of_utf8Size_eq_one {c : Char} (hsize : c.utf8Size = 1) : c.toNat < 128 :=
  Nat.lt_succ_of_le (UInt32.le_iff_toNat_le.mp (Char.utf8Size_eq_one_iff.mp hsize))

theorem forall_lt_of_byteLength {chars : List Char} (hlength : chars.length = byteLength chars) :
    ∀ c ∈ chars, c.toNat < 128 := by
  induction chars with
  | nil => simp
  | cons first rest ih =>
    have hfirst := Char.utf8Size_pos first
    have hrest := length_le_byteLength rest
    rw [List.length_cons, byteLength] at hlength
    intro c hmem
    rcases List.mem_cons.mp hmem with rfl | hmem
    · exact lt_of_utf8Size_eq_one (by omega)
    · exact ih (by omega) c hmem

/-- Whether a text has as many characters as bytes. -/
def isAscii (text : String) : Bool :=
  text.length == text.utf8ByteSize

theorem forall_lt_of_isAscii {text : String} (hascii : isAscii text) :
    ∀ c ∈ text.toList, c.toNat < 128 := by
  apply forall_lt_of_byteLength
  rw [isAscii, beq_iff_eq] at hascii
  rw [byteLength_toList, String.length_toList, hascii]

end AtScript.Text
