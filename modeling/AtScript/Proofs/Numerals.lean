import AtScript.Proofs.Decimals
import AtScript.Proofs.Templates

/-! # Which texts are integers

A text is read as an integer when, without the white space around it, it is empty, one of three
words, or the decimal text of a number that fits 64 bits. Every other text is refused.
-/

namespace AtScript

namespace Decimal

/-! ## Digits after a sign -/

/-- The texts that write a number: one or more digits, after a sign or without one. -/
inductive Denotes : List Char → Int → Prop
  | bare {digits : List Char} (hne : digits ≠ []) (hdigits : ∀ c ∈ digits, c.isDigit = true) :
      Denotes digits (Nat.ofDigitChars 10 digits 0 : Nat)
  | plus {digits : List Char} (hne : digits ≠ []) (hdigits : ∀ c ∈ digits, c.isDigit = true) :
      Denotes ('+' :: digits) (Nat.ofDigitChars 10 digits 0 : Nat)
  | minus {digits : List Char} (hne : digits ≠ []) (hdigits : ∀ c ∈ digits, c.isDigit = true) :
      Denotes ('-' :: digits) (-(Nat.ofDigitChars 10 digits 0 : Nat))

/-- A number that does not fit 64 bits is refused at the digit with which it grows too large. -/
theorem wordFrom?_eq_none {chars : List Char} {value : Nat} (hvalue : value < UInt64.size)
    (hlarge : UInt64.size ≤ Nat.ofDigitChars 10 chars value) : wordFrom? value chars = none := by
  induction chars generalizing value with
  | nil => exact absurd hlarge (Nat.not_le.mpr hvalue)
  | cons c rest ih =>
      rw [Nat.ofDigitChars_cons] at hlarge
      rw [wordFrom?]
      split
      next =>
        dsimp only
        split
        next hnext => exact ih hnext hlarge
        next => rfl
      next => rfl

theorem natural?_eq_some_iff {chars : List Char} {value : Nat} :
    natural? chars = some value ↔
      chars ≠ [] ∧ (∀ c ∈ chars, c.isDigit = true) ∧ Nat.ofDigitChars 10 chars 0 = value ∧
        value < UInt64.size := by
  cases chars with
  | nil => simp [natural?]
  | cons first rest =>
      rw [natural?, if_neg (by simp)]
      constructor
      · intro hread
        have hdigits := isDigit_of_wordFrom? hread
        by_cases hfits : Nat.ofDigitChars 10 (first :: rest) 0 < UInt64.size
        · cases (wordFrom?_eq_some hdigits hfits).symm.trans hread
          exact ⟨List.cons_ne_nil _ _, hdigits, rfl, hfits⟩
        · cases (wordFrom?_eq_none (by decide) (Nat.not_lt.mp hfits)).symm.trans hread
      · rintro ⟨-, hdigits, rfl, hfits⟩
        exact wordFrom?_eq_some hdigits hfits

/-- Reading gives the number that a text writes, as long as it fits 64 bits without its sign. -/
theorem integer?_eq_some_iff {chars : List Char} {value : Int} :
    integer? chars = some value ↔ Denotes chars value ∧ value.natAbs < UInt64.size := by
  constructor
  · intro hread
    unfold integer? at hread
    split at hread
    all_goals
      obtain ⟨_, hnumber, rfl⟩ := Option.map_eq_some_iff.mp hread
      obtain ⟨number, hnatural, ⟨⟩⟩ := Option.bind_eq_some_iff.mp hnumber
      obtain ⟨hne, hdigits, rfl, hfits⟩ := natural?_eq_some_iff.mp hnatural
    · exact ⟨.minus hne hdigits, by simpa using hfits⟩
    · exact ⟨.plus hne hdigits, by simpa using hfits⟩
    · exact ⟨.bare hne hdigits, by simpa using hfits⟩
  · rintro ⟨hdenotes, hfits⟩
    have hnatural {digits : List Char} (hne : digits ≠ [])
        (hdigits : ∀ c ∈ digits, c.isDigit = true)
        (hfits : Nat.ofDigitChars 10 digits 0 < UInt64.size) :
        natural? digits = some (Nat.ofDigitChars 10 digits 0) :=
      natural?_eq_some_iff.mpr ⟨hne, hdigits, rfl, hfits⟩
    cases hdenotes with
    | bare hne hdigits =>
        have hread := hnatural hne hdigits (by simpa using hfits)
        cases chars with
        | nil => exact absurd rfl hne
        | cons first rest => exact integer?_eq_some (hdigits first List.mem_cons_self) hread
    | plus hne hdigits => rw [integer?, hnatural hne hdigits (by simpa using hfits)]; rfl
    | minus hne hdigits => rw [integer?, hnatural hne hdigits (by simpa using hfits)]; rfl

/-- Reading an integer gives the one that a text writes, and fails for one outside 64 bits. -/
theorem int64?_eq_some_iff {chars : List Char} {number : Int64} :
    int64? chars = some number ↔ Denotes chars number.toInt := by
  have hleast : Int64.minValue.toInt = -2 ^ 63 := rfl
  have hgreatest : Int64.maxValue.toInt = 2 ^ 63 - 1 := rfl
  have hsize : UInt64.size = 2 ^ 64 := rfl
  constructor
  · intro hread
    unfold int64? at hread
    split at hread
    next value hvalue =>
      split at hread
      next hfits =>
        cases hread
        rw [Int64.toInt_ofInt_of_le (by omega) (by omega)]
        exact (integer?_eq_some_iff.mp hvalue).1
      next => cases hread
    next => cases hread
  · intro hdenotes
    have hlower := Int64.le_toInt number
    have hupper := Int64.toInt_lt number
    have hread := integer?_eq_some_iff.mpr ⟨hdenotes, by omega⟩
    rw [int64?, hread]
    dsimp only
    rw [if_pos ⟨by omega, by omega⟩, Int64.ofInt_toInt]

namespace Denotes

variable {chars : List Char} {value : Int}

theorem ne_nil (hdenotes : Denotes chars value) : chars ≠ [] := by
  cases hdenotes with
  | bare hne => exact hne
  | plus => exact List.cons_ne_nil _ _
  | minus => exact List.cons_ne_nil _ _

theorem mem_numerals (hdenotes : Denotes chars value) {c : Char} (hmem : c ∈ chars) :
    c ∈ '+' :: numerals := by
  cases hdenotes with
  | bare _ hdigits => exact List.mem_cons_of_mem _ (mem_numerals_of_isDigit (hdigits c hmem))
  | plus _ hdigits =>
      rcases List.mem_cons.mp hmem with rfl | hmem
      · exact List.mem_cons_self
      · exact List.mem_cons_of_mem _ (mem_numerals_of_isDigit (hdigits c hmem))
  | minus _ hdigits =>
      rcases List.mem_cons.mp hmem with rfl | hmem
      · decide
      · exact List.mem_cons_of_mem _ (mem_numerals_of_isDigit (hdigits c hmem))

/-- The text of a number is no word. -/
theorem foldCase_ne {core : String} (hdenotes : Denotes core.toList value) {word : String}
    (hword : word.toList.any ('+' :: numerals).contains = false) : Text.foldCase core ≠ word := by
  rintro rfl
  have hfirst := List.head_mem hdenotes.ne_nil
  have hnumeral := hdenotes.mem_numerals hfirst
  have hlower : (core.toList.head hdenotes.ne_nil).toLower = core.toList.head hdenotes.ne_nil := by
    rcases List.mem_cons.mp hnumeral with hplus | hmem
    · rw [hplus]
      decide
    · exact toLower_of_mem_numerals hmem
  have hletter := List.mem_map_of_mem (f := Char.toLower) hfirst
  rw [hlower, ← String.toList_map] at hletter
  exact List.any_eq_false.mp hword _ hletter (List.contains_iff_mem.mpr hnumeral)

end Denotes

end Decimal

/-! ## Values -/

namespace Value

/-- The integers that texts without white space around them stand for. The letter case of the words
does not matter; a number has to lie between the limits of 64 bits in two's complement. -/
inductive StandsFor (core : String) : Int64 → Prop
  | zero (hcore : core = "" ∨ Text.foldCase core = "null" ∨ Text.foldCase core = "false") :
      StandsFor core 0
  | one (hcore : Text.foldCase core = "true") : StandsFor core 1
  | number {value : Int} (hcore : Decimal.Denotes core.toList value)
      (hleast : -9223372036854775808 ≤ value) (hgreatest : value ≤ 9223372036854775807) :
      StandsFor core (Int64.ofInt value)

theorem standsFor_of_int64? {core : String} {number : Int64}
    (hread : Decimal.int64? core.toList = some number) : StandsFor core number := by
  have hleast := Int64.le_toInt number
  have hgreatest := Int64.toInt_lt number
  rw [← Int64.ofInt_toInt number]
  exact .number (Decimal.int64?_eq_some_iff.mp hread) (by omega) (by omega)

/-- Reading compares the words whatever their letter case, and tries a number last. -/
theorem toInt_eq (text : String) :
    toInt text =
      let core := Text.trim text
      if core = "" ∨ Text.foldCase core = "null" ∨ Text.foldCase core = "false" then .ok 0
      else if Text.foldCase core = "true" then .ok 1
      else match Decimal.int64? core.toList with
        | some number => .ok number
        | none => .error (.notNumeric text) := by
  have hnull : Text.foldCase null = "null" := by decide +kernel
  have hfalse : Text.foldCase falseText = "false" := by decide +kernel
  have htrue : Text.foldCase trueText = "true" := by decide +kernel
  let core := Text.trim text
  have hzero : (core.isEmpty || Text.sameIgnoringCase core null ||
      Text.sameIgnoringCase core falseText) = true ↔
      core = "" ∨ Text.foldCase core = "null" ∨ Text.foldCase core = "false" := by
    rw [Bool.or_eq_true, Bool.or_eq_true, or_assoc, String.isEmpty_iff, Text.sameIgnoringCase_iff,
      Text.sameIgnoringCase_iff, hnull, hfalse]
  have hone : Text.sameIgnoringCase core trueText = true ↔ Text.foldCase core = "true" := by
    rw [Text.sameIgnoringCase_iff, htrue]
  exact if_congr hzero rfl (if_congr hone rfl rfl)

theorem toInt_eq_ok_iff (text : String) (number : Int64) :
    toInt text = .ok number ↔ StandsFor (Text.trim text) number := by
  rw [toInt_eq]
  generalize Text.trim text = core
  dsimp only
  constructor
  · intro hread
    split at hread
    next hzero =>
      cases hread
      exact .zero hzero
    split at hread
    next hone =>
      cases hread
      exact .one hone
    split at hread
    next hnumber =>
      cases hread
      exact standsFor_of_int64? hnumber
    next => cases hread
  · intro hstands
    cases hstands with
    | zero hcore => rw [if_pos hcore]
    | one hcore =>
        have hempty : core ≠ "" := by
          rintro rfl
          exact absurd hcore (by decide +kernel)
        rw [hcore, if_neg (by simp [hempty]), if_pos rfl]
    | @number value hcore hleast hgreatest =>
        have hempty : core ≠ "" := by
          rintro rfl
          exact hcore.ne_nil (by simp)
        have hnull : Text.foldCase core ≠ "null" := hcore.foldCase_ne (by decide +kernel)
        have hfalse : Text.foldCase core ≠ "false" := hcore.foldCase_ne (by decide +kernel)
        have htrue : Text.foldCase core ≠ "true" := hcore.foldCase_ne (by decide +kernel)
        have hvalue : (Int64.ofInt value).toInt = value :=
          Int64.toInt_ofInt_of_le hleast (by omega)
        have hread : Decimal.int64? core.toList = some (Int64.ofInt value) := by
          rw [Decimal.int64?_eq_some_iff, hvalue]
          exact hcore
        rw [if_neg (by simp [hempty, hnull, hfalse]), if_neg htrue, hread]

/-- A text that is refused is named as it was given. -/
theorem toInt_eq_error {text : String} {error : ValueError} (hread : toInt text = .error error) :
    error = .notNumeric text := by
  rw [toInt_eq] at hread
  dsimp only at hread
  split at hread
  · cases hread
  split at hread
  · cases hread
  split at hread
  · cases hread
  · cases hread
    rfl

theorem trim_append_ofInt64 (number : Int64) {lead trail : String}
    (hlead : Text.isBlank lead = true) (htrail : Text.isBlank trail = true) :
    Text.trim (lead ++ Decimal.ofInt64 number ++ trail) = Decimal.ofInt64 number := by
  rw [Text.isBlank_eq, List.all_eq_true] at hlead htrail
  apply String.toList_inj.mp
  rw [Text.toList_trim, String.toList_append, String.toList_append]
  exact Text.trimChars_append hlead htrail (Decimal.toList_ofInt64_ne_nil number) fun c hmem =>
    Decimal.isBlankChar_of_mem_numerals (Decimal.mem_numerals hmem)

/-- A text is read as an integer exactly when it stands for one, and then as that one, whatever
white space is around it. Every other text is refused, and the failure names it as it was given.
The decimal text of every 64-bit integer, with any white space around it, is read as that
integer. -/
theorem toInt_accepts_exactly_integers (text : String) :
    (∀ number : Int64, toInt text = .ok number ↔ StandsFor (Text.trim text) number) ∧
    ((∀ number : Int64, ¬StandsFor (Text.trim text) number) →
      toInt text = .error (.notNumeric text)) ∧
    ∀ (number : Int64) (lead trail : String), Text.isBlank lead = true →
      Text.isBlank trail = true →
      toInt (lead ++ Decimal.ofInt64 number ++ trail) = .ok number := by
  refine ⟨toInt_eq_ok_iff text, ?_, ?_⟩
  · intro hnone
    cases hread : toInt text with
    | ok number => exact absurd ((toInt_eq_ok_iff text number).mp hread) (hnone number)
    | error error => rw [toInt_eq_error hread]
  · intro number lead trail hlead htrail
    rw [toInt_eq_ok_iff, trim_append_ofInt64 number hlead htrail, ← trim_ofInt64 number,
      ← toInt_eq_ok_iff]
    exact toInt_ofInt64 number

theorem not_standsFor_below_least (number : Int64) :
    ¬StandsFor "-9223372036854775809" number := by
  intro hstands
  cases hstands with
  | zero hcore => exact absurd hcore (by decide +kernel)
  | one hcore => exact absurd hcore (by decide +kernel)
  | number hcore hleast =>
      have hchars : "-9223372036854775809".toList = '-' :: "9223372036854775809".toList := by simp
      rw [hchars] at hcore
      cases hcore with
      | bare _ hdigits => exact absurd (hdigits '-' List.mem_cons_self) (by decide)
      | minus =>
          rw [show Nat.ofDigitChars 10 "9223372036854775809".toList 0 = 9223372036854775809 by
            decide +kernel] at hleast
          omega

/-- The least integer is read, also with leading zeros and white space around it; one less is
not. -/
theorem toInt_at_least_integer :
    StandsFor (Text.trim "\t-09223372036854775808 ") Int64.minValue ∧
      toInt "\t-09223372036854775808 " = .ok Int64.minValue ∧
      (∀ number, ¬StandsFor (Text.trim "\t-9223372036854775809 ") number) ∧
      toInt "\t-9223372036854775809 " = .error (.notNumeric "\t-9223372036854775809 ") ∧
      toInt (" " ++ Decimal.ofInt64 Int64.minValue ++ "\n") = .ok Int64.minValue := by
  have hcore : Decimal.Denotes (Text.trim "\t-09223372036854775808 ").toList (-2 ^ 63) := by
    have hdigits : "09223372036854775808".toList.all Char.isDigit = true := by decide +kernel
    have hminus := Decimal.Denotes.minus (by decide +kernel) (List.all_eq_true.mp hdigits)
    have hchars : (Text.trim "\t-09223372036854775808 ").toList =
        '-' :: "09223372036854775808".toList := by decide +kernel
    have hvalue : Nat.ofDigitChars 10 "09223372036854775808".toList 0 = 2 ^ 63 := by
      decide +kernel
    rw [hvalue] at hminus
    rw [hchars]
    exact hminus
  have hleast : StandsFor (Text.trim "\t-09223372036854775808 ") Int64.minValue :=
    .number hcore (by decide) (by decide)
  have hnone : ∀ number, ¬StandsFor (Text.trim "\t-9223372036854775809 ") number := by
    rw [show Text.trim "\t-9223372036854775809 " = "-9223372036854775809" by decide +kernel]
    exact not_standsFor_below_least
  obtain ⟨haccepts, -, hreads⟩ := toInt_accepts_exactly_integers "\t-09223372036854775808 "
  obtain ⟨-, hrefuses, -⟩ := toInt_accepts_exactly_integers "\t-9223372036854775809 "
  exact ⟨hleast, (haccepts _).mpr hleast, hnone, hrefuses hnone,
    hreads Int64.minValue " " "\n" (by decide +kernel) (by decide +kernel)⟩

end Value

end AtScript
