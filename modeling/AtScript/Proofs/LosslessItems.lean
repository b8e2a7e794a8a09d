import AtScript.Proofs.Items

/-! # Texts that an item keeps

A text survives being packed and unpacked when nothing in it is read back as something else. That is
so for the empty text, and for a text that neither is taken for the null text nor has a line end or
an escape that comes back in another form.
-/

namespace AtScript.Value

/-! ## What an item cannot hold -/

theorem separators_notMem_packed (chars : List Char) :
    ',' ∉ packed chars ∧ '\n' ∉ packed chars := by
  fun_induction packed chars with
  | case1 rest ih => simpa using ih
  | case2 rest ih => simpa using ih
  | case3 rest ih => simpa using ih
  | case4 c rest _ hfeed hcomma ih => simpa [Ne.symm hfeed, Ne.symm hcomma] using ih
  | case5 => simp

theorem separators_notMem_packItem (text : String) :
    ',' ∉ (packItem text).toList ∧ '\n' ∉ (packItem text).toList := by
  cases hblank : Text.isBlank text with
  | true =>
      rw [packItem, if_pos hblank]
      decide
  | false =>
      rw [toList_packItem hblank]
      exact separators_notMem_packed text.toList

/-! ## What comes back in another form -/

/-- The texts that an item gives back as a single character. -/
def altered : List (List Char) :=
  [['\r', '\n'], ['\\', 'x', '2', 'C'], ['\\', 'n']]

theorem length_restored_le (chars : List Char) : (restored chars).length ≤ chars.length := by
  fun_induction restored chars with
  | case1 rest ih | case2 rest ih | case3 rest ih | case4 c rest _ _ _ ih =>
      simp only [List.length_cons]
      omega
  | case5 => exact Nat.le_refl 0

/-- Characters come back as they were exactly when none of the altered texts is among them. -/
theorem restored_eq_self_iff (chars : List Char) :
    restored chars = chars ↔ ∀ pattern ∈ altered, ¬pattern <:+: chars := by
  -- Where an altered text stands, the result is too short.
  have hshorter {c : Char} {pattern rest : List Char} (hpattern : 1 < pattern.length) :
      c :: restored rest ≠ pattern ++ rest := by
    intro hsame
    have hlength := congrArg List.length hsame
    have hle := length_restored_le rest
    rw [List.length_cons, List.length_append] at hlength
    omega
  have hfound {pattern : List Char} (hmem : pattern ∈ altered) (rest : List Char) :
      ¬∀ other ∈ altered, ¬other <:+: pattern ++ rest :=
    fun hnone => hnone pattern hmem (List.prefix_append pattern rest).isInfix
  fun_induction restored chars with
  | case1 rest ih =>
      exact iff_of_false (@hshorter _ ['\r', '\n'] rest (by decide))
        (@hfound ['\r', '\n'] (by decide) rest)
  | case2 rest ih =>
      exact iff_of_false (@hshorter _ ['\\', 'x', '2', 'C'] rest (by decide))
        (@hfound ['\\', 'x', '2', 'C'] (by decide) rest)
  | case3 rest ih =>
      exact iff_of_false (@hshorter _ ['\\', 'n'] rest (by decide))
        (@hfound ['\\', 'n'] (by decide) rest)
  | case4 c rest hreturn hcomma hfeed ih =>
      have hstart : ∀ pattern ∈ altered, ¬pattern <+: c :: rest := by
        intro pattern hmem hbegins
        obtain ⟨more, hmore⟩ := hbegins
        rw [altered, List.mem_cons, List.mem_cons, List.mem_singleton] at hmem
        rcases hmem with rfl | rfl | rfl
        · obtain ⟨hc, hrest⟩ := List.cons.inj hmore
          exact hreturn more hc.symm hrest.symm
        · obtain ⟨hc, hrest⟩ := List.cons.inj hmore
          exact hcomma more hc.symm hrest.symm
        · obtain ⟨hc, hrest⟩ := List.cons.inj hmore
          exact hfeed more hc.symm hrest.symm
      rw [List.cons_inj_right]
      refine ih.trans (forall₂_congr fun pattern hmem => ?_)
      rw [List.infix_cons_iff, or_iff_right (hstart pattern hmem)]
  | case5 => decide

/-! ## There and back -/

/-- No item has a comma or a line feed, and an item stands for the text it was made from exactly
when that text is empty, or is not blank, is not taken for the null text, and has neither a pair of
carriage return and line feed nor one of the two escapes. A line feed keeps a text from being taken
for the null text. -/
theorem item_stands_for_text_iff (text : String) :
    ',' ∉ (packItem text).toList ∧ '\n' ∉ (packItem text).toList ∧
      (unpackItem (packItem text) = text ↔
        text = "" ∨
          Text.isBlank text = false ∧
            ('\n' ∈ text.toList ∨ Text.sameIgnoringCase (Text.trim text) null = false) ∧
            ¬"\r\n".toList <:+: text.toList ∧ ¬"\\x2C".toList <:+: text.toList ∧
            ¬"\\n".toList <:+: text.toList) := by
  obtain ⟨hcomma, hfeed⟩ := separators_notMem_packItem text
  refine ⟨hcomma, hfeed, ?_⟩
  have haltered : (∀ pattern ∈ altered, ¬pattern <:+: text.toList) ↔
      ¬"\r\n".toList <:+: text.toList ∧ ¬"\\x2C".toList <:+: text.toList ∧
        ¬"\\n".toList <:+: text.toList := by
    simp [altered]
  have hnull : Text.sameIgnoringCase (Text.trim text) null = false ↔
      ¬Text.foldCase (Text.trim text) = null := by
    rw [← Bool.not_eq_true, sameIgnoringCase_null_iff]
  rw [unpackItem_packItem, kept, ← haltered, ← restored_eq_self_iff, hnull]
  by_cases hempty : text = ""
  · simp [hempty, Text.isBlank_eq]
  rw [or_iff_right hempty]
  split
  next hlost =>
    apply iff_of_false (Ne.symm hempty)
    rintro ⟨hblank, hkept, -⟩
    rcases hlost with hlost | ⟨hnone, hlost⟩
    · rw [hblank] at hlost
      cases hlost
    · exact hkept.elim hnone fun hother => hother hlost
  next hkept =>
    rw [not_or, Bool.not_eq_true, not_and_or, not_not] at hkept
    rw [and_iff_right hkept.1, and_iff_right hkept.2, ← String.toList_inj, String.toList_ofList]

end AtScript.Value
