import AtScript.Proofs.Blank
import AtScript.Value.Reading

/-! # Numbers are read back

The text of a 64-bit integer has digits and possibly a sign, and reading it gives the integer.
-/

namespace AtScript

namespace Decimal

/-! ## Digits -/

/-- Each further digit makes a number larger, if anything. -/
theorem le_ofDigitChars (chars : List Char) (value : Nat) :
    value ≤ Nat.ofDigitChars 10 chars value := by
  induction chars generalizing value with
  | nil => exact Nat.le_refl value
  | cons c rest ih =>
      rw [Nat.ofDigitChars_cons]
      apply Nat.le_trans _ (ih _)
      omega

/-- A number that fits 64 bits is read to its end, since all numbers on the way are smaller. -/
theorem wordFrom?_eq_some {chars : List Char} (hchars : ∀ c ∈ chars, c.isDigit = true) {value : Nat}
    (hfits : Nat.ofDigitChars 10 chars value < UInt64.size) :
    wordFrom? value chars = some (Nat.ofDigitChars 10 chars value) := by
  induction chars generalizing value with
  | nil => rfl
  | cons c rest ih =>
      rw [Nat.ofDigitChars_cons] at hfits ⊢
      have hnext := Nat.lt_of_le_of_lt (le_ofDigitChars rest _) hfits
      rw [wordFrom?, if_pos (hchars c List.mem_cons_self)]
      dsimp only
      rw [if_pos hnext]
      apply ih
      · intro d hmem
        exact hchars d (List.mem_cons_of_mem c hmem)
      · exact hfits

theorem isDigit_of_mem_toDigits {value : Nat} {c : Char} (hmem : c ∈ Nat.toDigits 10 value) :
    c.isDigit = true :=
  Nat.isDigit_of_mem_toDigits (by decide) (by decide) hmem

theorem natural?_toDigits {value : Nat} (hfits : value < UInt64.size) :
    natural? (Nat.toDigits 10 value) = some value := by
  have hread := @wordFrom?_eq_some (Nat.toDigits 10 value) (fun c => isDigit_of_mem_toDigits) 0
  rw [Nat.ofDigitChars_ten_toDigits] at hread
  rw [natural?, if_neg (by simp [Nat.toDigits_ne_nil]), hread hfits]

/-! ## Signs -/

theorem toList_ofInt64 (value : Int64) :
    (ofInt64 value).toList =
      if 0 ≤ value.toInt then Nat.toDigits 10 value.toInt.toNat
      else '-' :: Nat.toDigits 10 (-value.toInt).toNat := by
  have hrepr : ofInt64 value = value.toInt.repr := rfl
  rw [hrepr, Int.repr_eq_if]
  split
  · rw [Nat.repr_eq_ofList_toDigits, String.toList_ofList]
  · simp [Nat.repr_eq_ofList_toDigits]

/-- The characters of numbers. -/
def numerals : List Char :=
  ['-', '0', '1', '2', '3', '4', '5', '6', '7', '8', '9']

theorem mem_numerals_of_isDigit {c : Char} (hdigit : c.isDigit = true) : c ∈ numerals := by
  have hall : ∀ code ≤ 57, 48 ≤ code → Char.ofNat code ∈ numerals := by decide
  obtain ⟨hleast, hgreatest⟩ := Char.isDigit_iff_toNat.mp hdigit
  have hc := hall c.toNat hgreatest hleast
  rwa [Char.ofNat_toNat] at hc

theorem mem_numerals {value : Int64} {c : Char} (hmem : c ∈ (ofInt64 value).toList) :
    c ∈ numerals := by
  have hdigits {number : Nat} (hdigit : c ∈ Nat.toDigits 10 number) : c ∈ numerals :=
    mem_numerals_of_isDigit (isDigit_of_mem_toDigits hdigit)
  rw [toList_ofInt64] at hmem
  split at hmem
  · exact hdigits hmem
  · rcases List.mem_cons.mp hmem with rfl | hdigit
    · exact List.mem_cons_self
    · exact hdigits hdigit

theorem toLower_of_mem_numerals {c : Char} (hmem : c ∈ numerals) : c.toLower = c := by
  have hall : numerals.all (fun c => c.toLower == c) = true := by decide
  exact beq_iff_eq.mp (List.all_eq_true.mp hall c hmem)

theorem isBlankChar_of_mem_numerals {c : Char} (hmem : c ∈ numerals) :
    Text.isBlankChar c = false := by
  have hany : numerals.any Text.isBlankChar = false := by decide
  exact Bool.eq_false_iff.mpr (List.any_eq_false.mp hany c hmem)

theorem toList_ofInt64_ne_nil (value : Int64) : (ofInt64 value).toList ≠ [] := by
  rw [toList_ofInt64]
  split
  · exact Nat.toDigits_ne_nil
  · exact List.cons_ne_nil _ _

/-- What begins with a digit has no sign. -/
theorem integer?_eq_some {c : Char} {rest : List Char} (hdigit : c.isDigit = true) {value : Nat}
    (hread : natural? (c :: rest) = some value) : integer? (c :: rest) = some (value : Int) := by
  unfold integer?
  split
  next heq =>
    cases heq
    exact absurd hdigit (by decide)
  next heq =>
    cases heq
    exact absurd hdigit (by decide)
  next =>
    rw [hread]
    rfl

theorem integer?_ofInt64 (value : Int64) : integer? (ofInt64 value).toList = some value.toInt := by
  have hleast := Int64.le_toInt value
  have hgreatest := Int64.toInt_lt value
  have hsize : UInt64.size = 2 ^ 64 := rfl
  rw [toList_ofInt64]
  split
  next hsign =>
    cases hdigits : Nat.toDigits 10 value.toInt.toNat with
    | nil => exact absurd hdigits Nat.toDigits_ne_nil
    | cons c rest =>
        have hfirst : c ∈ Nat.toDigits 10 value.toInt.toNat := by
          rw [hdigits]
          exact List.mem_cons_self
        have hread : natural? (Nat.toDigits 10 value.toInt.toNat) = some value.toInt.toNat :=
          natural?_toDigits (by omega)
        rw [hdigits] at hread
        rw [integer?_eq_some (isDigit_of_mem_toDigits hfirst) hread, Int.toNat_of_nonneg hsign]
  next hsign =>
    rw [integer?, natural?_toDigits (by omega)]
    change some (-((-value.toInt).toNat : Int)) = _
    rw [Int.toNat_of_nonneg (by omega), Int.neg_neg]

theorem int64?_ofInt64 (value : Int64) : int64? (ofInt64 value).toList = some value := by
  have hfits : Int64.minValue.toInt ≤ value.toInt ∧ value.toInt ≤ Int64.maxValue.toInt :=
    ⟨Int64.le_toInt value, Int64.toInt_le value⟩
  rw [int64?, integer?_ofInt64]
  dsimp only
  rw [if_pos hfits, Int64.ofInt_toInt]

theorem ofInt64_injective {first second : Int64} (htext : ofInt64 first = ofInt64 second) :
    first = second := by
  apply Option.some.inj
  rw [← int64?_ofInt64 first, htext, int64?_ofInt64]

end Decimal

/-! ## Values that are numbers -/

namespace Value

theorem trim_ofInt64 (number : Int64) :
    Text.trim (Decimal.ofInt64 number) = Decimal.ofInt64 number := by
  have htrim := @Text.trimChars_append [] _ [] nofun nofun (Decimal.toList_ofInt64_ne_nil number)
    fun c hmem => Decimal.isBlankChar_of_mem_numerals (Decimal.mem_numerals hmem)
  rw [List.nil_append, List.append_nil, ← Text.toList_trim] at htrim
  exact String.toList_inj.mp htrim

/-- A number is not a word. -/
theorem sameIgnoringCase_ofInt64 (number : Int64) {word : String}
    (hword : (Text.foldCase word).toList.any Decimal.numerals.contains = false) :
    Text.sameIgnoringCase (Decimal.ofInt64 number) word = false := by
  rw [← Bool.not_eq_true]
  intro hsame
  have hfirst := List.head_mem (Decimal.toList_ofInt64_ne_nil number)
  have hnumeral := Decimal.mem_numerals hfirst
  have hletter := Text.toLower_mem_foldCase hsame hfirst
  rw [Decimal.toLower_of_mem_numerals hnumeral] at hletter
  exact List.any_eq_false.mp hword _ hletter (List.contains_iff_mem.mpr hnumeral)

theorem toInt_ofInt64 (number : Int64) : toInt (Decimal.ofInt64 number) = .ok number := by
  have hempty : (Decimal.ofInt64 number).isEmpty = false := by
    rw [← Bool.not_eq_true, String.isEmpty_iff, ← String.toList_eq_nil_iff]
    exact Decimal.toList_ofInt64_ne_nil number
  have hnull := @sameIgnoringCase_ofInt64 number null (by decide +kernel)
  have hfalse := @sameIgnoringCase_ofInt64 number falseText (by decide +kernel)
  have htrue := @sameIgnoringCase_ofInt64 number trueText (by decide +kernel)
  rw [toInt, trim_ofInt64]
  simp only [hempty, hnull, hfalse, htrue, Decimal.int64?_ofInt64, Bool.or_self,
    Bool.false_eq_true, if_false]

end Value

end AtScript
