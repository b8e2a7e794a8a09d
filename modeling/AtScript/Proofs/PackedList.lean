import AtScript.Proofs.Blank
import AtScript.Value.PackedList

/-! # Packed lists are read back

Reading a packed list gives the items that were written. Only blank items and items that spell the
null text are lost: they come back empty.
-/

namespace AtScript.PackedList

/-- What is left of an item when it is written and read back. -/
def normalize (item : String) : String :=
  if Text.isBlank item || Text.sameIgnoringCase item Value.null then "" else item

/-! ## One item -/

/-- Quoted characters are read back up to the closing quote. -/
theorem readItems_escape (done : List String) (item : String) (chars rest : List Char) :
    readItems done .quoted true item (Value.escape chars ++ '"' :: rest) =
      readItems done .bare true (item ++ String.ofList chars) rest := by
  induction chars generalizing item with
  | nil => simp [Value.escape, readItems]
  | cons c chars ih =>
      have hpush : item ++ String.ofList (c :: chars) = item.push c ++ String.ofList chars := by
        rw [String.ofList_cons, ← String.append_assoc, String.append_singleton]
      rw [hpush, ← ih]
      by_cases hspecial : c = '"' ∨ c = '\\'
      · simp [Value.escape, hspecial, readItems]
      · rw [not_or] at hspecial
        simp [Value.escape, hspecial.1, hspecial.2, readItems]

/-- Characters that cannot be mistaken are read as they stand. -/
theorem readItems_plain (done : List String) (item : String) {chars : List Char}
    (hchars : chars.any isSpecial = false) (rest : List Char) :
    readItems done .bare false item (chars ++ rest) =
      readItems done .bare false (item ++ String.ofList chars) rest := by
  induction chars generalizing item with
  | nil => simp
  | cons c chars ih =>
      have hpush : item ++ String.ofList (c :: chars) = item.push c ++ String.ofList chars := by
        rw [String.ofList_cons, ← String.append_assoc, String.append_singleton]
      rw [List.any_cons, Bool.or_eq_false_iff] at hchars
      have hplain := hchars.1
      simp only [isSpecial, Bool.or_eq_false_iff, beq_eq_false_iff_ne] at hplain
      obtain ⟨⟨⟨⟨⟨hcomma, hquote⟩, -⟩, hopen⟩, hclose⟩, hblank⟩ := hplain
      rw [hpush, ← ih _ hchars.2]
      simp [readItems, hcomma, hquote, hopen, hclose, hblank]

theorem isSpecial_of_upper {c : Char} (hupper : 'A'.val ≤ c.val ∧ c.val ≤ 'Z'.val) :
    isSpecial c = false := by
  have hne (d : Char) (hd : d.val < 'A'.val ∨ 'Z'.val < d.val) : (c == d) = false := by
    rw [beq_eq_false_iff_ne]
    rintro rfl
    rcases hd with hlt | hlt
    · exact absurd hupper.1 (UInt32.not_le.mpr hlt)
    · exact absurd hupper.2 (UInt32.not_le.mpr hlt)
  have hblank : Text.isBlankChar c = false := by
    have hhigh : ¬c.val ≤ 0x0D := fun hle => absurd (UInt32.le_trans hupper.1 hle) (by decide)
    rw [Text.isBlankChar, if_pos (UInt32.lt_of_le_of_lt hupper.2 (by decide)), hne ' ' (by decide)]
    simp [hhigh]
  rw [isSpecial, hne ',' (by decide), hne '"' (by decide), hne '\\' (by decide),
    hne '[' (by decide), hne ']' (by decide), hblank]
  rfl

theorem any_isSpecial_null : Value.null.toList.any isSpecial = false := by decide +kernel

/-- No letter of the null text, in either case, is special. -/
theorem isSpecial_of_toLower {c : Char} (hlower : c.toLower ∈ Value.null.toList) :
    isSpecial c = false := by
  by_cases hupper : c.val ≥ 'A'.val ∧ c.val ≤ 'Z'.val
  · exact isSpecial_of_upper hupper
  · have hsame : c.toLower = c := dif_neg hupper
    rw [hsame] at hlower
    exact Bool.not_eq_true _ ▸ List.any_eq_false.mp any_isSpecial_null c hlower

/-- A text that spells the null text has no special characters. -/
theorem any_isSpecial_of_null {item : String}
    (hnull : Text.sameIgnoringCase item Value.null = true) : item.toList.any isSpecial = false := by
  have hlower : Text.foldCase Value.null = Value.null := by decide +kernel
  rw [List.any_eq_false]
  intro c hc
  rw [Bool.not_eq_true]
  have hletter := Text.toLower_mem_foldCase hnull hc
  rw [hlower] at hletter
  exact isSpecial_of_toLower hletter

/-- What is read from a written item, up to its end, is that item. -/
theorem readItems_encodeItem (done : List String) (item : String) :
    ∃ wasQuoted text, finishItem wasQuoted text = normalize item ∧
      ∀ rest, readItems done .bare false "" ((encodeItem item).toList ++ rest) =
        readItems done .bare wasQuoted text rest := by
  rw [encodeItem, normalize, Text.isBlank_eq]
  -- A blank item is written as the null text, one with special characters in quotes.
  cases hblank : item.toList.all Text.isBlankChar with
  | true =>
      have hread := readItems_plain done "" any_isSpecial_null
      rw [String.ofList_toList, String.empty_append] at hread
      refine ⟨false, Value.null, ?_, hread⟩
      rw [Bool.true_or, if_pos rfl]
      decide +kernel
  | false =>
      simp only [Bool.false_eq_true, if_false, Bool.false_or]
      cases hspecial : item.toList.any isSpecial with
      | true =>
          have hnull : Text.sameIgnoringCase item Value.null = false := by
            rw [← Bool.not_eq_true]
            intro hnull
            rw [any_isSpecial_of_null hnull] at hspecial
            cases hspecial
          refine ⟨true, item, by simp [finishItem, hnull], fun rest => ?_⟩
          have hread := readItems_escape done "" item.toList rest
          rw [String.ofList_toList, String.empty_append] at hread
          rw [← hread]
          simp [Value.quote, readItems]
      | false =>
          refine ⟨false, item, by simp [finishItem], fun rest => ?_⟩
          have hread := readItems_plain done "" hspecial rest
          rw [String.ofList_toList, String.empty_append] at hread
          exact hread

/-! ## Whole lists -/

/-- The characters between the brackets of a packed list. -/
def innerChars (items : List String) : List Char :=
  [','].intercalate (items.map fun item => (encodeItem item).toList)

theorem toList_encode (items : List String) :
    (encode items).toList = '[' :: (innerChars items ++ [']']) := by
  simp [encode, innerChars, Function.comp_def]

/-- Written items are read back one after the other. -/
theorem readItems_innerChars (done : List String) (item : String) (items : List String) :
    readItems done .bare false "" (innerChars (item :: items)) =
      .ok (done.reverse ++ (item :: items).map normalize) := by
  induction items generalizing done item with
  | nil =>
      obtain ⟨wasQuoted, text, hfinish, hread⟩ := readItems_encodeItem done item
      have hlast := hread []
      rw [List.append_nil] at hlast
      rw [innerChars, List.map_singleton, List.intercalate_singleton, hlast]
      simp [readItems, hfinish]
  | cons next items ih =>
      obtain ⟨wasQuoted, text, hfinish, hread⟩ := readItems_encodeItem done item
      have hinner : innerChars (item :: next :: items) =
          (encodeItem item).toList ++ ',' :: innerChars (next :: items) := by
        simp [innerChars, List.intercalate_cons_cons]
      have hcomma (rest : List Char) : readItems done .bare wasQuoted text (',' :: rest) =
          readItems (normalize item :: done) .bare false "" rest := by
        simp [readItems, hfinish]
      rw [hinner, hread, hcomma, ih]
      simp

/-- A written item has a character that is not white space. -/
theorem exists_not_blank_encodeItem (item : String) :
    ∃ c ∈ (encodeItem item).toList, Text.isBlankChar c = false := by
  rw [encodeItem]
  cases hblank : item.toList.all Text.isBlankChar with
  | true =>
      rw [if_pos rfl]
      exact ⟨'n', by decide +kernel⟩
  | false =>
      simp only [Bool.false_eq_true, if_false]
      split
      · exact ⟨'"', by simp [Value.quote], by decide⟩
      · simpa using hblank

/-- Only an empty list has nothing between its brackets. -/
theorem innerChars_all_isBlankChar (item : String) (items : List String) :
    (innerChars (item :: items)).all Text.isBlankChar = false := by
  obtain ⟨c, hmem, hblank⟩ := exists_not_blank_encodeItem item
  rw [List.all_eq_false]
  refine ⟨c, ?_, by simp [hblank]⟩
  cases items with
  | nil => simpa [innerChars] using hmem
  | cons next items => simp [innerChars, List.intercalate_cons_cons, hmem]

theorem trim_encode (items : List String) : Text.trim (encode items) = encode items := by
  have hends : Text.hasBlankEnd (encode items) = false := by
    have hopen : Text.isBlankChar '[' = false := by decide
    have hclose : Text.isBlankChar ']' = false := by decide
    rw [Text.hasBlankEnd, String.front?_eq, String.back?_eq, toList_encode, ← List.cons_append,
      List.getLast?_append, List.cons_append, List.head?_cons, Option.any_some, hopen]
    exact hclose
  rw [Text.trim, hends]
  rfl

theorem toList_dropBrackets_encode (items : List String) :
    (dropBrackets (encode items)).toList = innerChars items := by
  have hfront : (encode items).front? == some '[' := by
    rw [String.front?_eq, toList_encode]
    rfl
  have hdropped : ((encode items).drop 1).copy.toList = innerChars items ++ [']'] := by
    rw [String.toList_copy_drop, toList_encode]
    rfl
  have hback : ((encode items).drop 1).copy.back? == some ']' := by
    rw [String.back?_eq, hdropped, List.getLast?_append]
    rfl
  rw [dropBrackets]
  simp only [hfront, if_true, hback]
  rw [String.toList_copy_dropEnd, hdropped]
  simp

/-- Packed lists are read back up to `normalize`. -/
theorem decode_encode (items : List String) :
    decode (encode items) = .ok (items.map normalize) := by
  rw [decode, trim_encode, Text.isBlank_eq, toList_dropBrackets_encode]
  cases items with
  | nil => rfl
  | cons item items =>
      rw [innerChars_all_isBlankChar, readItems_innerChars]
      rfl

theorem normalize_eq (item : String) :
    normalize item =
      if Text.trim item = "" ∨ Text.foldCase item = Text.foldCase Value.null then "" else item := by
  simp only [normalize, Bool.or_eq_true, Text.isBlank_iff_trim, Text.sameIgnoringCase_iff]

/-- A packed list is read back with as many items as were written. Each one is what it was, unless
trimming leaves nothing of it or it spells the null text in letters of either case. -/
theorem decode_encode_getElem? (items : List String) :
    ∃ found, decode (encode items) = .ok found ∧ found.length = items.length ∧
      ∀ index : Nat, found[index]? = items[index]?.map fun item =>
        if Text.trim item = "" ∨ Text.foldCase item = Text.foldCase Value.null then ""
        else item := by
  refine ⟨items.map normalize, decode_encode items, List.length_map .., fun index => ?_⟩
  rw [List.getElem?_map]
  congr 1
  exact funext normalize_eq

end AtScript.PackedList
