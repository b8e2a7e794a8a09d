import AtScript.Text.Blank
import Mathlib.Data.List.TakeWhile

/-! # What trimming leaves

Trimming takes away white space at both ends and nothing else. It leaves nothing exactly of a blank
text.
-/

namespace AtScript.Text

variable {lead core trail : List Char}

theorem dropBlank_append (hlead : ∀ c ∈ lead, isBlankChar c = true)
    (hcore : core.head?.any isBlankChar = false) : dropBlank (lead ++ core) = core := by
  rw [dropBlank, List.dropWhile_append, List.dropWhile_eq_nil_iff.mpr hlead]
  exact dropBlank_eq_self hcore

theorem dropBlankEnd_append (htrail : ∀ c ∈ trail, isBlankChar c = true)
    (hcore : core.getLast?.any isBlankChar = false) : dropBlankEnd (core ++ trail) = core := by
  have hreverse : dropBlank (trail.reverse ++ core.reverse) = core.reverse := by
    apply dropBlank_append
    · simpa using htrail
    · rwa [List.head?_reverse]
  rw [dropBlankEnd, ← dropBlank, List.reverse_append, hreverse, List.reverse_reverse]

/-- Trimming takes away the white space around a text that has none. -/
theorem trimChars_append (hlead : ∀ c ∈ lead, isBlankChar c = true)
    (htrail : ∀ c ∈ trail, isBlankChar c = true) (hne : core ≠ [])
    (hcore : ∀ c ∈ core, isBlankChar c = false) : trimChars (lead ++ core ++ trail) = core := by
  have hfront : (core ++ trail).head?.any isBlankChar = false := by
    rw [List.head?_append, List.head?_eq_some_head hne]
    exact hcore _ (List.head_mem hne)
  have hback : core.getLast?.any isBlankChar = false := by
    rw [List.getLast?_eq_some_getLast hne]
    exact hcore _ (List.getLast_mem hne)
  rw [trimChars, List.append_assoc, dropBlank_append hlead hfront, dropBlankEnd_append htrail hback]

/-- A text is what trimming leaves of it with white space around. -/
theorem exists_trimChars (chars : List Char) :
    ∃ lead trail, chars = lead ++ trimChars chars ++ trail ∧
      (∀ c ∈ lead, isBlankChar c = true) ∧ ∀ c ∈ trail, isBlankChar c = true := by
  refine ⟨chars.takeWhile isBlankChar, ((dropBlank chars).reverse.takeWhile isBlankChar).reverse,
    ?_, fun c => List.mem_takeWhile_imp, fun c hmem => ?_⟩
  · rw [trimChars, dropBlankEnd, List.append_assoc, ← List.reverse_append,
      List.takeWhile_append_dropWhile, List.reverse_reverse, dropBlank,
      List.takeWhile_append_dropWhile]
  · exact List.mem_takeWhile_imp (List.mem_reverse.mp hmem)

theorem trimChars_eq_nil_iff (chars : List Char) :
    trimChars chars = [] ↔ ∀ c ∈ chars, isBlankChar c = true := by
  constructor
  · intro hnil
    obtain ⟨lead, trail, hchars, hlead, htrail⟩ := exists_trimChars chars
    rw [hnil, List.append_nil] at hchars
    rw [hchars]
    exact List.forall_mem_append.mpr ⟨hlead, htrail⟩
  · intro hblank
    rw [trimChars, dropBlank, List.dropWhile_eq_nil_iff.mpr hblank]
    rfl

/-- A blank text is one of which trimming leaves nothing. -/
theorem isBlank_iff_trim (text : String) : isBlank text = true ↔ trim text = "" := by
  rw [isBlank_eq, List.all_eq_true, ← trimChars_eq_nil_iff, ← toList_trim,
    String.toList_eq_nil_iff]

end AtScript.Text
