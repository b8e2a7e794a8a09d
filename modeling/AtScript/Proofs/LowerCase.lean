import AtScript.Text.Blank
import AtScript.Text.CaseMap

/-! # What lower case keeps

Putting a text in lower case twice is the same as doing it once, and no white space and none of the
characters that shape tokens comes from anything but itself. Both are properties of the table of
case mappings: no character that the table yields is one that the table lists.
-/

namespace AtScript.Text

/-! ## Sets of code points -/

/-- A number with a one at the binary place of each of some code points. -/
def bits (codes : List Nat) : Nat :=
  codes.foldr (fun code rest => 1 <<< code ||| rest) 0

theorem testBit_bits (codes : List Nat) (code : Nat) :
    (bits codes).testBit code = true ↔ code ∈ codes := by
  induction codes with
  | nil => simp [bits]
  | cons first rest ih =>
      have hbits : bits (first :: rest) = 1 <<< first ||| bits rest := rfl
      rw [hbits, Nat.testBit_or, Bool.or_eq_true, ih, List.mem_cons, Nat.one_shiftLeft,
        Nat.testBit_two_pow, decide_eq_true_iff, eq_comm]

/-- Sets of code points without a common bit have no common member. -/
theorem notMem_of_bits {first second : List Nat} (hbits : bits first &&& bits second = 0)
    {code : Nat} (hfirst : code ∈ first) : code ∉ second := by
  intro hsecond
  have hboth : (bits first &&& bits second).testBit code = true := by
    rw [Nat.testBit_and, (testBit_bits first code).mpr hfirst,
      (testBit_bits second code).mpr hsecond]
    rfl
  rw [hbits, Nat.zero_testBit] at hboth
  cases hboth

/-- The code points that a range lists. -/
def CaseRange.codes (range : CaseRange) : List Nat :=
  (List.range ((range.last - range.first) / range.step + 1)).map (range.first + range.step * ·)

theorem CaseRange.mem_codes {range : CaseRange} {code : Nat} (hlists : range.lists code = true) :
    code ∈ range.codes := by
  rw [lists, Bool.and_eq_true, Bool.and_eq_true, decide_eq_true_iff, decide_eq_true_iff,
    beq_iff_eq] at hlists
  obtain ⟨⟨hfirst, hlast⟩, hstep⟩ := hlists
  refine List.mem_map.mpr ⟨(code - range.first) / range.step, ?_, ?_⟩
  · rw [List.mem_range]
    exact Nat.lt_succ_of_le (Nat.div_le_div_right (by omega))
  · rw [Nat.mul_div_cancel' (Nat.dvd_of_mod_eq_zero hstep)]
    omega

/-- The code point that a range assigns to one of its members. -/
def CaseRange.image (range : CaseRange) (code : Nat) : Nat :=
  (code + range.shift).toNat

/-! ## Characters that shape tokens -/

/-- Whether a character shapes tokens, as white space, parentheses, commas, quotes and `@` do. -/
def isMark (c : Char) : Bool :=
  c == '(' || c == ')' || c == ',' || c == '"' || c == '@' || isBlankChar c

/-- The code points of those characters. -/
def markCodes : List Nat :=
  List.range' 0x09 5 ++ List.range' 0x2000 11 ++
    [0x20, 0x22, 0x28, 0x29, 0x2C, 0x40, 0x85, 0xA0, 0x1680, 0x2028, 0x2029, 0x202F, 0x205F, 0x3000]

theorem isBlankChar_of_not_isMark {c : Char} (hmark : isMark c = false) : isBlankChar c = false :=
  (Bool.or_eq_false_iff.mp hmark).2

theorem toNat_mem_markCodes {c : Char} (hmark : isMark c = true) : c.toNat ∈ markCodes := by
  simp only [isMark, Bool.or_eq_true, beq_iff_eq] at hmark
  rcases hmark with ((((rfl | rfl) | rfl) | rfl) | rfl) | hblank
  iterate 5 decide
  have hspace (heq : c = ' ') : c.toNat = 0x20 := by rw [heq]; rfl
  simp only [isBlankChar] at hblank
  simp only [markCodes, List.mem_append, List.mem_range'_1, List.mem_cons, List.not_mem_nil]
  split at hblank
  · simp only [Bool.or_eq_true, beq_iff_eq, Bool.and_eq_true, decide_eq_true_iff,
      UInt32.le_iff_toNat_le, Char.toNat_val, UInt32.reduceToNat] at hblank
    rcases hblank with heq | hrange
    · have hcode := hspace heq
      omega
    · omega
  · simp only [Bool.or_eq_true, beq_iff_eq, Bool.and_eq_true, decide_eq_true_iff,
      UInt32.le_iff_toNat_le, Char.toNat_val, UInt32.reduceToNat, ← UInt32.toNat_inj] at hblank
    omega

/-! ## The table -/

/-- The code points that the table yields. -/
def loweredCodes : List Nat :=
  lowerRanges.flatMap fun range => range.codes.map range.image

/-- The code points that lower case changes or that shape tokens. -/
def reservedCodes : List Nat :=
  lowerRanges.flatMap CaseRange.codes ++ 0x130 :: List.range' 0x41 26 ++ markCodes

theorem loweredCodes_notMem_reservedCodes {code : Nat} (hcode : code ∈ loweredCodes) :
    code ∉ reservedCodes :=
  notMem_of_bits (by decide +kernel) hcode

theorem isValidChar_of_mem_loweredCodes {code : Nat} (hcode : code ∈ loweredCodes) :
    code.isValidChar := by
  have hall : loweredCodes.all fun code => decide code.isValidChar := by decide +kernel
  exact of_decide_eq_true (List.all_eq_true.mp hall code hcode)

theorem shiftChar_lowerRanges (c : Char) :
    shiftChar lowerRanges c = c ∨ (shiftChar lowerRanges c).toNat ∈ loweredCodes := by
  rw [shiftChar]
  split
  next range hfind =>
    split
    next hlists =>
      have hcode : range.image c.toNat ∈ loweredCodes := by
        refine List.mem_flatMap.mpr ⟨range, List.mem_of_find?_eq_some hfind, ?_⟩
        exact List.mem_map_of_mem (CaseRange.mem_codes hlists)
      have hvalid := isValidChar_of_mem_loweredCodes hcode
      right
      rw [← CaseRange.image, Char.ofNat, dif_pos hvalid]
      exact hcode
    next => exact .inl rfl
  next => exact .inl rfl

theorem shiftChar_eq_self {c : Char}
    (hcode : c.toNat ∉ lowerRanges.flatMap CaseRange.codes) : shiftChar lowerRanges c = c := by
  rw [shiftChar]
  split
  next range hfind =>
    split
    next hlists =>
      refine absurd (List.mem_flatMap.mpr ⟨range, ?_, CaseRange.mem_codes hlists⟩) hcode
      exact List.mem_of_find?_eq_some hfind
    next => rfl
  next => rfl

/-! ## Characters -/

/-- A character that lower case leaves alone wherever it stands. -/
def IsLower (c : Char) : Prop :=
  c ≠ 'Σ' ∧ lowerChar c = [c]

instance (c : Char) : Decidable (IsLower c) :=
  inferInstanceAs (Decidable (_ ∧ _))

theorem isLower_of_mem_loweredCodes {c : Char} (hcode : c.toNat ∈ loweredCodes) : IsLower c := by
  have hreserved := loweredCodes_notMem_reservedCodes hcode
  simp only [reservedCodes, List.mem_append, List.mem_cons, List.mem_range'_1, not_or] at hreserved
  obtain ⟨⟨hlisted, hdotted, hupper⟩, -⟩ := hreserved
  constructor
  · rintro rfl
    exact hlisted (by decide +kernel)
  · rw [lowerChar]
    split
    next hascii =>
      have hnot : ¬(c.val ≥ 'A'.val ∧ c.val ≤ 'Z'.val) := by
        rintro ⟨hge, hle⟩
        rw [ge_iff_le, UInt32.le_iff_toNat_le] at hge
        rw [UInt32.le_iff_toNat_le] at hle
        exact hupper ⟨hge, Nat.lt_succ_of_le hle⟩
      have hsame : c.toLower = c := dif_neg hnot
      rw [hsame]
    next =>
      have hne : c ≠ 'İ' := by
        rintro rfl
        exact hdotted rfl
      rw [if_neg hne, shiftChar_eq_self hlisted]

theorem ascii_toLower {c : Char} (hascii : c.toNat < 128) :
    IsLower c.toLower ∧ (c.toLower = c ∨ isMark c.toLower = false) := by
  have hall : ∀ code < 128, IsLower (Char.ofNat code).toLower ∧
      ((Char.ofNat code).toLower = Char.ofNat code ∨ isMark (Char.ofNat code).toLower = false) := by
    decide +kernel
  have hc := hall c.toNat hascii
  rwa [Char.ofNat_toNat] at hc

/-- ASCII letters have no part in what shapes tokens. -/
theorem isMark_toLower (c : Char) : isMark c.toLower = isMark c := by
  by_cases hascii : c.toNat < 128
  · have hall : ∀ code < 128, isMark (Char.ofNat code).toLower = isMark (Char.ofNat code) := by
      decide +kernel
    have hc := hall c.toNat hascii
    rwa [Char.ofNat_toNat] at hc
  · have hupper : ¬(c.val ≥ 'A'.val ∧ c.val ≤ 'Z'.val) := by
      rintro ⟨-, hle⟩
      exact hascii (Nat.lt_of_le_of_lt (UInt32.le_iff_toNat_le.mp hle) (by decide))
    have hsame : c.toLower = c := dif_neg hupper
    rw [hsame]

/-- What a character becomes in lower case stays as it is. It shapes no token, unless it is the
character itself. -/
theorem mem_lowerChar {c d : Char} (hsigma : c ≠ 'Σ') (hmem : d ∈ lowerChar c) :
    IsLower d ∧ (d = c ∨ isMark d = false) := by
  rw [lowerChar] at hmem
  split at hmem
  next hascii =>
    rw [List.mem_singleton] at hmem
    subst hmem
    exact ascii_toLower hascii
  next hwide =>
    split at hmem
    next =>
      have hpair : ∀ d ∈ ['i', '\u0307'], IsLower d ∧ isMark d = false := by
        rw [List.forall_mem_cons, List.forall_mem_singleton]
        decide +kernel
      exact (hpair d hmem).imp_right .inr
    next hdotted =>
      rw [List.mem_singleton] at hmem
      rcases shiftChar_lowerRanges c with hsame | hcode
      · rw [hsame] at hmem
        subst hmem
        refine ⟨⟨hsigma, ?_⟩, .inl rfl⟩
        rw [lowerChar, if_neg hwide, if_neg hdotted, hsame]
      · rw [← hmem] at hcode
        refine ⟨isLower_of_mem_loweredCodes hcode, .inr ?_⟩
        rw [← Bool.not_eq_true]
        intro hmark
        refine loweredCodes_notMem_reservedCodes hcode ?_
        exact List.mem_append_right _ (toNat_mem_markCodes hmark)

/-! ## Texts -/

/-- What the first of some characters becomes. -/
theorem lowerFrom_cons (before : List Char) (c : Char) (rest : List Char) :
    ∃ mapped, lowerFrom before (c :: rest) = mapped ++ lowerFrom (c :: before) rest ∧
      ∀ d ∈ mapped, IsLower d ∧ (d = c ∨ isMark d = false) := by
  refine ⟨_, rfl, ?_⟩
  intro d hmem
  split at hmem
  next =>
    have hforms : ∀ d ∈ ['ς', 'σ'], IsLower d ∧ isMark d = false := by
      rw [List.forall_mem_cons, List.forall_mem_singleton]
      decide +kernel
    refine (hforms d ?_).imp_right .inr
    split at hmem <;> simp_all
  next hsigma => exact mem_lowerChar hsigma hmem

theorem isLower_of_mem_lowerFrom {before chars : List Char} {d : Char}
    (hmem : d ∈ lowerFrom before chars) : IsLower d := by
  induction chars generalizing before with
  | nil => simp [lowerFrom] at hmem
  | cons c rest ih =>
      obtain ⟨mapped, heq, hmapped⟩ := lowerFrom_cons before c rest
      rw [heq, List.mem_append] at hmem
      rcases hmem with hmem | hmem
      · exact (hmapped d hmem).1
      · exact ih hmem

/-- What the first part of some characters becomes. -/
theorem lowerFrom_append (before chars more : List Char) :
    ∃ lowered, lowerFrom before (chars ++ more) =
        lowered ++ lowerFrom (chars.reverse ++ before) more ∧
      ∀ d ∈ lowered, d ∈ chars ∨ isMark d = false := by
  induction chars generalizing before with
  | nil => exact ⟨[], rfl, by simp⟩
  | cons c rest ih =>
      obtain ⟨mapped, heq, hmapped⟩ := lowerFrom_cons before c (rest ++ more)
      obtain ⟨lowered, hrest, hlowered⟩ := ih (c :: before)
      refine ⟨mapped ++ lowered, ?_, ?_⟩
      · rw [List.cons_append, heq, hrest]
        simp
      · intro d hmem
        rcases List.mem_append.mp hmem with hmem | hmem
        · refine (hmapped d hmem).2.imp_left ?_
          rintro rfl
          exact List.mem_cons_self
        · exact (hlowered d hmem).imp_left (List.mem_cons_of_mem c)

theorem lowerFrom_eq_self {chars : List Char} (hlower : ∀ c ∈ chars, IsLower c)
    (before : List Char) : lowerFrom before chars = chars := by
  induction chars generalizing before with
  | nil => rfl
  | cons c rest ih =>
      obtain ⟨⟨hsigma, hsame⟩, hrest⟩ := List.forall_mem_cons.mp hlower
      rw [lowerFrom, if_neg hsigma, hsame, ih hrest]
      rfl

/-- A text in lower case stays as it is. -/
theorem lower_lower (text : String) : lower (lower text) = lower text := by
  apply String.toList_inj.mp
  rw [toList_lower, toList_lower]
  exact lowerFrom_eq_self (fun c hmem => isLower_of_mem_lowerFrom hmem) []

/-- The number of characters that one character becomes does not depend on its neighbours. -/
theorem length_lowerFrom_append (before before' : List Char) (chars more : List Char) :
    (lowerFrom before (chars ++ more)).length =
      (lowerFrom before' chars).length + (lowerFrom (chars.reverse ++ before) more).length := by
  induction chars generalizing before before' with
  | nil => simp [lowerFrom]
  | cons c rest ih =>
      have hrest := ih (c :: before) (c :: before')
      rw [List.cons_append, lowerFrom, lowerFrom, List.length_append, List.length_append, hrest,
        List.reverse_cons, List.append_assoc, List.singleton_append]
      split
      · simp only [List.length_singleton]
        omega
      · omega

theorem lowerFrom_ne_nil {chars : List Char} (hne : chars ≠ []) (before : List Char) :
    lowerFrom before chars ≠ [] := by
  cases chars with
  | nil => exact absurd rfl hne
  | cons c rest =>
      have hmapped : lowerChar c ≠ [] := by
        rw [lowerChar]
        split
        · simp
        · split <;> simp
      rw [lowerFrom]
      split <;> simp [hmapped]

/-- A longer text has a longer lower case. -/
theorem length_lower_lt {text more : String} (hmore : more ≠ "") :
    (lower text).length < (lower (text ++ more)).length := by
  have hne : more.toList ≠ [] := fun hnil => hmore (String.toList_eq_nil_iff.mp hnil)
  have hpos := List.length_pos_iff.mpr (lowerFrom_ne_nil hne (text.toList.reverse ++ []))
  rw [← String.length_toList, ← String.length_toList, toList_lower, toList_lower,
    String.toList_append, length_lowerFrom_append [] []]
  omega

end AtScript.Text
