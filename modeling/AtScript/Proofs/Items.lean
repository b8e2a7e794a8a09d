import AtScript.Proofs.StoreLaws
import AtScript.Value.Item

/-! # What a stored item stands for

An item is made by replacing in turn, and so is its text. Both happen in one pass over the
characters, which shows what becomes of a text on its way into a cell and back.
-/

namespace AtScript

namespace Text

variable {pattern replacement : List Char}

theorem replaceFrom_cons {c : Char} {rest : List Char} (hpattern : ¬pattern <+: c :: rest) :
    replaceFrom pattern replacement 0 (c :: rest) =
      c :: replaceFrom pattern replacement 0 rest := by
  rw [replaceFrom, if_neg]
  rwa [List.isPrefixOf_iff_prefix]

/-- A character with which no replacement begins is not new. -/
theorem exists_of_replaceFrom_eq_cons {first c : Char} (hfirst : c ≠ first)
    {chars after : List Char}
    (hreplaced : replaceFrom pattern (first :: replacement) 0 chars = c :: after) :
    ∃ rest, chars = c :: rest := by
  cases chars with
  | nil => cases hreplaced
  | cons d rest =>
      rw [replaceFrom] at hreplaced
      split at hreplaced
      · exact absurd (List.cons.inj hreplaced).1.symm hfirst
      · exact ⟨rest, by rw [(List.cons.inj hreplaced).1]⟩

end Text

namespace Value

/-! ## One pass instead of several -/

/-- The characters of an item. -/
def packed : List Char → List Char
  | '\r' :: '\n' :: rest => '\\' :: 'n' :: packed rest
  | '\n' :: rest => '\\' :: 'n' :: packed rest
  | ',' :: rest => '\\' :: 'x' :: '2' :: 'C' :: packed rest
  | c :: rest => c :: packed rest
  | [] => []

/-- The characters that an item stands for. -/
def unpacked : List Char → List Char
  | '\\' :: 'x' :: '2' :: 'C' :: rest => ',' :: unpacked rest
  | '\\' :: 'n' :: rest => '\n' :: unpacked rest
  | c :: rest => c :: unpacked rest
  | [] => []

theorem replaceFrom_eq_packed (chars : List Char) :
    Text.replaceFrom ['\n'] ['\\', 'n'] 0
      (Text.replaceFrom ['\r', '\n'] ['\\', 'n'] 0
        (Text.replaceFrom [','] ['\\', 'x', '2', 'C'] 0 chars)) = packed chars := by
  fun_induction packed chars with
  | case1 rest ih => simp [Text.replaceFrom, ih]
  | case2 rest ih => simp [Text.replaceFrom, ih]
  | case3 rest ih => simp [Text.replaceFrom, ih]
  | case4 c rest hreturn hfeed hcomma ih =>
      -- A line feed after the first replacement was there before it.
      have hpair : ¬['\r', '\n'] <+: c :: Text.replaceFrom [','] ['\\', 'x', '2', 'C'] 0 rest := by
        intro hpair
        obtain ⟨hc, after, hafter⟩ := List.cons_prefix_cons.mp hpair
        obtain ⟨more, hmore⟩ := Text.exists_of_replaceFrom_eq_cons (by decide) hafter.symm
        exact hreturn more hc.symm hmore
      rw [Text.replaceFrom_cons, Text.replaceFrom_cons hpair, Text.replaceFrom_cons, ih]
      · intro hprefix
        exact hfeed (List.cons_prefix_cons.mp hprefix).1.symm
      · intro hprefix
        exact hcomma (List.cons_prefix_cons.mp hprefix).1.symm
  | case5 => rfl

theorem replaceFrom_eq_unpacked (chars : List Char) :
    Text.replaceFrom ['\\', 'n'] ['\n'] 0
      (Text.replaceFrom ['\\', 'x', '2', 'C'] [','] 0 chars) = unpacked chars := by
  fun_induction unpacked chars with
  | case1 rest ih => simp [Text.replaceFrom, ih]
  | case2 rest ih => simp [Text.replaceFrom, ih]
  | case3 c rest hcomma hfeed ih =>
      have hescape : ¬['\\', 'n'] <+: c :: Text.replaceFrom ['\\', 'x', '2', 'C'] [','] 0 rest := by
        intro hescape
        obtain ⟨hc, after, hafter⟩ := List.cons_prefix_cons.mp hescape
        obtain ⟨more, hmore⟩ := Text.exists_of_replaceFrom_eq_cons (by decide) hafter.symm
        exact hfeed more hc.symm hmore
      rw [Text.replaceFrom_cons, Text.replaceFrom_cons hescape, ih]
      intro hprefix
      obtain ⟨hc, more, hmore⟩ := List.cons_prefix_cons.mp hprefix
      exact hcomma more hc.symm hmore.symm
  | case4 => rfl

theorem toList_packItem {text : String} (hblank : Text.isBlank text = false) :
    (packItem text).toList = packed text.toList := by
  rw [packItem, if_neg (by simp [hblank]), Text.toList_replaceAll _ _ _ (by decide),
    Text.toList_replaceAll _ _ _ (by decide), Text.toList_replaceAll _ _ _ (by decide)]
  exact replaceFrom_eq_packed text.toList

theorem toList_unpackItem {item : String} (hnull : isNull item = false) :
    (unpackItem item).toList = unpacked item.toList := by
  rw [unpackItem, if_neg (by simp [hnull]), Text.toList_replaceAll _ _ _ (by decide),
    Text.toList_replaceAll _ _ _ (by decide)]
  exact replaceFrom_eq_unpacked item.toList

/-! ## There and back -/

/-- A text in which each pair of carriage return and line feed is a line feed, and each escape the
character that it stands for. -/
def restored : List Char → List Char
  | '\r' :: '\n' :: rest => '\n' :: restored rest
  | '\\' :: 'x' :: '2' :: 'C' :: rest => ',' :: restored rest
  | '\\' :: 'n' :: rest => '\n' :: restored rest
  | c :: rest => c :: restored rest
  | [] => []

/-- Packing puts in nothing that begins with another character than a backslash. -/
theorem exists_of_packed_eq_cons {c : Char} (hc : c ≠ '\\') {chars after : List Char}
    (hpacked : packed chars = c :: after) : ∃ rest, chars = c :: rest ∧ packed rest = after := by
  unfold packed at hpacked
  split at hpacked
  · exact absurd (List.cons.inj hpacked).1.symm hc
  · exact absurd (List.cons.inj hpacked).1.symm hc
  · exact absurd (List.cons.inj hpacked).1.symm hc
  next d rest _ _ _ =>
    obtain ⟨rfl, hrest⟩ := List.cons.inj hpacked
    exact ⟨rest, rfl, hrest⟩
  · cases hpacked

theorem unpacked_packed (chars : List Char) : unpacked (packed chars) = restored chars := by
  fun_induction restored chars with
  | case1 rest ih => simp [packed, unpacked, ih]
  | case2 rest ih => simp [packed, unpacked, ih]
  | case3 rest ih => simp [packed, unpacked, ih]
  | case4 c rest hreturn hcomma hfeed ih =>
      by_cases hbreak : c = '\n'
      · simp [hbreak, packed, unpacked, ih]
      by_cases hseparator : c = ','
      · simp [hseparator, packed, unpacked, ih]
      have hpacked : packed (c :: rest) = c :: packed rest :=
        packed.eq_4 c rest hreturn hbreak hseparator
      -- What would make an escape of a backslash is not put behind it by packing.
      have hunpacked : unpacked (c :: packed rest) = c :: unpacked (packed rest) := by
        apply unpacked.eq_3
        · intro after hc hafter
          obtain ⟨second, rfl, hsecond⟩ := exists_of_packed_eq_cons (by decide) hafter
          obtain ⟨third, rfl, hthird⟩ := exists_of_packed_eq_cons (by decide) hsecond
          obtain ⟨fourth, rfl, -⟩ := exists_of_packed_eq_cons (by decide) hthird
          exact hcomma fourth hc rfl
        · intro after hc hafter
          obtain ⟨second, hsecond, -⟩ := exists_of_packed_eq_cons (by decide) hafter
          exact hfeed second hc hsecond
      rw [hpacked, hunpacked, ih]
  | case5 => rfl

/-! ## Items that are null -/

/-- A text is not null when it has a character that is neither white space nor a letter of the null
text. -/
theorem isNull_eq_false_of_mem {text : String} {c : Char} (hmem : c ∈ text.toList)
    (hblank : Text.isBlankChar c = false) (hletter : c.toLower ∉ null.toList) :
    isNull text = false := by
  have hcore : c ∈ (Text.trim text).toList := by
    obtain ⟨lead, trail, hchars, hlead, htrail⟩ := Text.exists_trimChars text.toList
    rw [hchars, List.append_assoc, List.mem_append, List.mem_append] at hmem
    rw [Text.toList_trim]
    rcases hmem with hmem | hmem | hmem
    · exact absurd (hlead c hmem) (by simp [hblank])
    · exact hmem
    · exact absurd (htrail c hmem) (by simp [hblank])
  rw [← Bool.not_eq_true, isNull_iff]
  rintro (hempty | hnull)
  · rw [hempty] at hcore
    exact List.not_mem_nil hcore
  · apply hletter
    rw [← hnull, Text.foldCase, String.toList_map]
    exact List.mem_map_of_mem hcore

theorem packed_eq_self {chars : List Char} (hfeed : '\n' ∉ chars) (hcomma : ',' ∉ chars) :
    packed chars = chars := by
  fun_induction packed chars with
  | case1 rest ih => simp at hfeed
  | case2 rest ih => simp at hfeed
  | case3 rest ih => simp at hcomma
  | case4 c rest _ _ _ ih =>
      rw [ih (List.not_mem_of_not_mem_cons hfeed) (List.not_mem_of_not_mem_cons hcomma)]
  | case5 => rfl

theorem backslash_mem_packed {chars : List Char} (hchars : '\n' ∈ chars ∨ ',' ∈ chars) :
    '\\' ∈ packed chars := by
  fun_induction packed chars with
  | case1 rest ih => exact List.mem_cons_self
  | case2 rest ih => exact List.mem_cons_self
  | case3 rest ih => exact List.mem_cons_self
  | case4 c rest _ hfeed hcomma ih =>
      apply List.mem_cons_of_mem
      apply ih
      simpa [Ne.symm hfeed, Ne.symm hcomma] using hchars
  | case5 => simp at hchars

/-- A text that is not blank makes a null item only when it spells the null text. A line feed
anywhere prevents that, for its escape is not white space. -/
theorem isNull_packItem_iff {text : String} (hblank : Text.isBlank text = false) :
    isNull (packItem text) = true ↔
      '\n' ∉ text.toList ∧ Text.foldCase (Text.trim text) = null := by
  by_cases hescaped : '\n' ∈ text.toList ∨ ',' ∈ text.toList
  · have hmem : '\\' ∈ (packItem text).toList := by
      rw [toList_packItem hblank]
      exact backslash_mem_packed hescaped
    rw [isNull_eq_false_of_mem hmem (by decide) (by decide)]
    apply iff_of_false Bool.false_ne_true
    rintro ⟨hfeed, hnull⟩
    have hcomma := isNull_eq_false_of_mem (hescaped.resolve_left hfeed) (by decide) (by decide)
    rw [(isNull_iff text).mpr (.inr hnull)] at hcomma
    cases hcomma
  · obtain ⟨hfeed, hcomma⟩ := not_or.mp hescaped
    have hitem : packItem text = text := by
      apply String.toList_inj.mp
      rw [toList_packItem hblank, packed_eq_self hfeed hcomma]
    have htrim : ¬Text.trim text = "" := by
      rw [← Text.isBlank_iff_trim, hblank]
      exact Bool.false_ne_true
    rw [hitem, isNull_iff, or_iff_right htrim, and_iff_right hfeed]

/-! ## Cells -/

/-- What is left of a text that was stored as an item. -/
def kept (text : String) : String :=
  if Text.isBlank text ∨ '\n' ∉ text.toList ∧ Text.foldCase (Text.trim text) = null then ""
  else String.ofList (restored text.toList)

theorem unpackItem_packItem (text : String) : unpackItem (packItem text) = kept text := by
  rw [kept]
  cases hblank : Text.isBlank text with
  | true =>
      have hnull : isNull null = true := isNull_of_sameIgnoringCase sameIgnoringCase_null
      rw [packItem, if_pos hblank, unpackItem, if_pos hnull, if_pos (.inl rfl)]
  | false =>
      simp only [Bool.false_eq_true, false_or, ← isNull_packItem_iff hblank]
      split
      next hnull => rw [unpackItem, if_pos hnull]
      next hnull =>
        apply String.toList_inj.mp
        rw [toList_unpackItem (Bool.eq_false_iff.mpr hnull), toList_packItem hblank,
          unpacked_packed, String.toList_ofList]

theorem unpackItem_empty : unpackItem "" = "" := by rw [unpackItem, if_pos isNull_empty]

theorem unpackItem_get_set {S : Type} [Store S] [LawfulStore S] (store : S) (key text : String) :
    unpackItem (Store.get (Store.set store key (packItem text)) key) = kept text := by
  rw [Store.get_set, ← unpackItem_packItem]
  split
  next hnull => rw [unpackItem_empty, unpackItem, if_pos hnull]
  next => rfl

end Value

end AtScript
