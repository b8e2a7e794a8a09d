import AtScript.Proofs.Items
import Mathlib.Data.List.Induction
import Mathlib.Data.List.Nodup

/-! # Replacing several patterns at once

A pass that replaces several patterns at once never looks at what it has put in. Replacing them in
turn does: a later pattern is also found where an earlier replacement brings it in, or completes it
together with its surroundings. Where no pattern is formed in this way, and no occurrence of one
pattern can overlap one of another, both give the same result, in whatever order the patterns are
taken.
-/

namespace AtScript.Text

/-! ## One pass -/

/-- Replaces patterns, each by its own replacement, in the characters that follow the next `skip`
ones, which belong to an occurrence already replaced. -/
def replaceEachFrom (bindings : List (List Char × List Char)) : Nat → List Char → List Char
  | _, [] => []
  | skip + 1, _ :: rest => replaceEachFrom bindings skip rest
  | 0, c :: rest =>
    match bindings.find? fun binding => binding.1.isPrefixOf (c :: rest) with
    | some (pattern, replacement) =>
      replacement ++ replaceEachFrom bindings (pattern.length - 1) rest
    | none => c :: replaceEachFrom bindings 0 rest

/-- Replaces patterns at once, each by its own replacement. -/
def replaceEach (bindings : List (List Char × List Char)) (chars : List Char) : List Char :=
  replaceEachFrom bindings 0 chars

variable {bindings : List (List Char × List Char)}

theorem replaceEachFrom_eq (skip : Nat) (chars : List Char) :
    replaceEachFrom bindings skip chars = replaceEach bindings (chars.drop skip) := by
  induction skip generalizing chars with
  | zero => rfl
  | succ skip ih =>
      cases chars with
      | nil => simp [replaceEach, replaceEachFrom]
      | cons c rest => exact ih rest

theorem replaceEach_cons {c : Char} {rest : List Char}
    (hnone : ∀ binding ∈ bindings, ¬binding.1 <+: c :: rest) :
    replaceEach bindings (c :: rest) = c :: replaceEach bindings rest := by
  have hfind : bindings.find? (fun binding => binding.1.isPrefixOf (c :: rest)) = none := by
    simpa using hnone
  rw [replaceEach, replaceEachFrom, hfind, replaceEach]

/-- One pattern is replaced at once as it is replaced alone. -/
theorem replaceFrom_eq_replaceEach (pattern replacement : List Char) (skip : Nat)
    (chars : List Char) :
    replaceFrom pattern replacement skip chars =
      replaceEachFrom [(pattern, replacement)] skip chars := by
  fun_induction replaceFrom pattern replacement skip chars with
  | case1 => rw [replaceEachFrom]
  | case2 skip c rest ih => rw [replaceEachFrom, ih]
  | case3 c rest hbegins ih => simp [replaceEachFrom, hbegins, ih]
  | case4 c rest hbegins ih => simp [replaceEachFrom, hbegins, ih]

/-! ## Patterns that keep apart -/

/-- Whether an occurrence of the second pattern can begin inside one of the first. -/
def Overlaps (first second : List Char) : Prop :=
  ∃ tail, tail ≠ [] ∧ tail <:+ first ∧ tail ≠ first ∧ (tail <+: second ∨ second <+: tail)

/-- Two patterns of which no occurrences can meet. -/
structure Apart (first second : List Char) : Prop where
  notPrefix : ¬first <+: second
  notPrefixOf : ¬second <+: first
  notOverlaps : ¬Overlaps first second
  notOverlapped : ¬Overlaps second first

theorem Apart.symm {first second : List Char} (hapart : Apart first second) :
    Apart second first :=
  ⟨hapart.notPrefixOf, hapart.notPrefix, hapart.notOverlapped, hapart.notOverlaps⟩

/-- Patterns whose occurrences cannot meet, unless they are the same occurrence. -/
structure KeepApart (patterns : List (List Char)) : Prop where
  nodup : patterns.Nodup
  nonempty : ∀ pattern ∈ patterns, pattern ≠ []
  prefixFree : ∀ first ∈ patterns, ∀ second ∈ patterns, first <+: second → first = second
  noOverlap : ∀ first ∈ patterns, ∀ second ∈ patterns, ¬Overlaps first second

theorem KeepApart.of_subset {patterns others : List (List Char)} (hapart : KeepApart patterns)
    (hsubset : others ⊆ patterns) (hnodup : others.Nodup) : KeepApart others where
  nodup := hnodup
  nonempty pattern hmem := hapart.nonempty pattern (hsubset hmem)
  prefixFree first hfirst second hsecond :=
    hapart.prefixFree first (hsubset hfirst) second (hsubset hsecond)
  noOverlap first hfirst second hsecond :=
    hapart.noOverlap first (hsubset hfirst) second (hsubset hsecond)

theorem KeepApart.apart {patterns : List (List Char)} (hapart : KeepApart patterns)
    {first second : List Char} (hfirst : first ∈ patterns) (hsecond : second ∈ patterns)
    (hne : first ≠ second) : Apart first second where
  notPrefix hbegins := hne (hapart.prefixFree first hfirst second hsecond hbegins)
  notPrefixOf hbegins := hne (hapart.prefixFree second hsecond first hfirst hbegins).symm
  notOverlaps := hapart.noOverlap first hfirst second hsecond
  notOverlapped := hapart.noOverlap second hsecond first hfirst

theorem KeepApart.perm {patterns others : List (List Char)} (hapart : KeepApart patterns)
    (hperm : others.Perm patterns) : KeepApart others :=
  hapart.of_subset hperm.subset (hperm.nodup_iff.mpr hapart.nodup)

theorem KeepApart.left {others : List (List Char × List Char)}
    (hapart : KeepApart ((bindings ++ others).map Prod.fst)) :
    KeepApart (bindings.map Prod.fst) := by
  rw [List.map_append] at hapart
  exact hapart.of_subset (List.subset_append_left _ _) (List.nodup_append.mp hapart.nodup).1

/-- Of patterns that keep apart at most one is found at a place. -/
theorem KeepApart.find?_eq_some_iff (hapart : KeepApart (bindings.map Prod.fst))
    (chars : List Char) (binding : List Char × List Char) :
    bindings.find? (fun binding => binding.1.isPrefixOf chars) = some binding ↔
      binding ∈ bindings ∧ binding.1 <+: chars := by
  constructor
  · intro hfind
    exact ⟨List.mem_of_find?_eq_some hfind, by simpa using List.find?_some hfind⟩
  · rintro ⟨hmem, hbegins⟩
    obtain ⟨found, hfind⟩ : ∃ found,
        bindings.find? (fun binding => binding.1.isPrefixOf chars) = some found := by
      rw [← Option.isSome_iff_exists, List.find?_isSome]
      exact ⟨binding, hmem, by simpa using hbegins⟩
    have hfound := List.mem_of_find?_eq_some hfind
    have hstart : found.1 <+: chars := by simpa using List.find?_some hfind
    have hsame : found.1 = binding.1 := by
      rcases List.prefix_or_prefix_of_prefix hstart hbegins with hle | hle
      · exact hapart.prefixFree _ (List.mem_map_of_mem hfound) _ (List.mem_map_of_mem hmem) hle
      · exact (hapart.prefixFree _ (List.mem_map_of_mem hmem) _
          (List.mem_map_of_mem hfound) hle).symm
    rw [hfind, List.inj_on_of_nodup_map hapart.nodup hfound hmem hsame]

/-- An occurrence of a pattern is replaced as a whole. -/
theorem KeepApart.replaceEach_append (hapart : KeepApart (bindings.map Prod.fst))
    {pattern replacement : List Char} (hmem : (pattern, replacement) ∈ bindings)
    (rest : List Char) :
    replaceEach bindings (pattern ++ rest) = replacement ++ replaceEach bindings rest := by
  have hfind := (hapart.find?_eq_some_iff (pattern ++ rest) (pattern, replacement)).mpr
    ⟨hmem, List.prefix_append pattern rest⟩
  cases pattern with
  | nil => exact absurd rfl (hapart.nonempty _ (List.mem_map_of_mem hmem))
  | cons c pattern =>
      rw [List.cons_append] at hfind ⊢
      rw [replaceEach, replaceEachFrom, hfind]
      simp [replaceEachFrom_eq]

/-- A pass over characters either takes an occurrence of a pattern or a character with which none
begins. -/
theorem KeepApart.induction (hapart : KeepApart (bindings.map Prod.fst))
    {motive : List Char → Prop} (nil : motive [])
    (replaced : ∀ pattern replacement rest, (pattern, replacement) ∈ bindings → motive rest →
      motive (pattern ++ rest))
    (kept : ∀ c rest, (∀ binding ∈ bindings, ¬binding.1 <+: c :: rest) → motive rest →
      motive (c :: rest)) (chars : List Char) : motive chars := by
  induction hlength : chars.length using Nat.strong_induction_on generalizing chars with
  | _ length ih =>
      cases chars with
      | nil => exact nil
      | cons c rest =>
          by_cases hnone : ∀ binding ∈ bindings, ¬binding.1 <+: c :: rest
          · exact kept c rest hnone (ih rest.length (by simp [← hlength]) rest rfl)
          · simp only [not_forall, not_not] at hnone
            obtain ⟨⟨pattern, replacement⟩, hmem, after, hafter⟩ := hnone
            have hpos := List.length_pos_of_ne_nil
              (hapart.nonempty pattern (List.mem_map_of_mem hmem))
            have hshorter : after.length < length := by
              rw [← hlength, ← hafter, List.length_append]
              exact Nat.lt_add_of_pos_left hpos
            rw [← hafter]
            exact replaced pattern replacement after hmem (ih _ hshorter after rfl)

/-- What is put in depends on which patterns are replaced, not on their order. -/
theorem KeepApart.replaceEach_perm (hapart : KeepApart (bindings.map Prod.fst))
    {others : List (List Char × List Char)} (hperm : others.Perm bindings) (chars : List Char) :
    replaceEach others chars = replaceEach bindings chars := by
  have hothers : KeepApart (others.map Prod.fst) := hapart.perm (hperm.map Prod.fst)
  induction chars using hapart.induction with
  | nil => rfl
  | replaced pattern replacement rest hmem ih =>
      rw [hapart.replaceEach_append hmem, hothers.replaceEach_append (hperm.mem_iff.mpr hmem), ih]
  | kept c rest hnone ih =>
      rw [replaceEach_cons hnone, replaceEach_cons, ih]
      intro binding hmem
      exact hnone binding (hperm.mem_iff.mp hmem)

/-! ## Where a pattern stands -/

theorem prefix_append_cases {start first second : List Char} (hbegins : start <+: first ++ second) :
    start <+: first ∨ ∃ tail, tail ≠ [] ∧ start = first ++ tail ∧ tail <+: second := by
  obtain ⟨rest, hrest⟩ := hbegins
  rcases List.append_eq_append_iff.mp hrest with ⟨more, hfirst, -⟩ | ⟨tail, hstart, hsecond⟩
  · exact .inl ⟨more, hfirst.symm⟩
  · cases tail with
    | nil => exact .inl ⟨[], by simpa using hstart⟩
    | cons c tail => exact .inr ⟨c :: tail, by simp, hstart, ⟨rest, hsecond.symm⟩⟩

theorem infix_append_append (first second third : List Char) :
    third <:+: first ++ (second ++ third) := by
  rw [← List.append_assoc]
  exact (List.suffix_append (first ++ second) third).isInfix

/-- A pattern that occurs has a first occurrence. -/
theorem exists_first_infix {pattern chars : List Char} (hpattern : pattern ≠ [])
    (hwithin : pattern <:+: chars) :
    ∃ before after, chars = before ++ (pattern ++ after) ∧ ¬pattern <:+: before := by
  induction chars with
  | nil => exact absurd (List.infix_nil.mp hwithin) hpattern
  | cons c rest ih =>
      by_cases hbegins : pattern <+: c :: rest
      · obtain ⟨after, hafter⟩ := hbegins
        exact ⟨[], after, hafter.symm, fun hempty => hpattern (List.infix_nil.mp hempty)⟩
      · obtain ⟨before, after, rfl, hbefore⟩ :=
          ih ((List.infix_cons_iff.mp hwithin).resolve_left hbegins)
        refine ⟨c :: before, after, rfl, fun hfound => ?_⟩
        rcases List.infix_cons_iff.mp hfound with hstart | hinside
        · exact hbegins (hstart.trans (List.prefix_append (c :: before) _))
        · exact hbefore hinside

/-- A pattern does not begin in front of one that it does not overlap and end inside it. -/
theorem prefix_of_not_overlaps {pattern other before after : List Char} (hbefore : before ≠ [])
    (hoverlap : ¬Overlaps pattern other) (hbegins : pattern <+: before ++ (other ++ after)) :
    pattern <+: before := by
  rcases prefix_append_cases hbegins with hinside | ⟨tail, htail, rfl, hstart⟩
  · exact hinside
  · refine absurd ⟨tail, htail, List.suffix_append before tail, ?_, ?_⟩ hoverlap
    · exact fun hsame => hbefore (by simpa using hsame)
    · exact List.prefix_or_prefix_of_prefix hstart (List.prefix_append other after)

/-- What stands in front of an occurrence of a pattern is dealt with on its own. -/
theorem KeepApart.replaceEach_before (hapart : KeepApart (bindings.map Prod.fst))
    {pattern : List Char} (hoverlap : ∀ binding ∈ bindings, ¬Overlaps binding.1 pattern)
    (before after : List Char) :
    replaceEach bindings (before ++ (pattern ++ after)) =
      replaceEach bindings before ++ replaceEach bindings (pattern ++ after) := by
  induction before using hapart.induction with
  | nil => rfl
  | replaced other replacement rest hmem ih =>
      rw [List.append_assoc, hapart.replaceEach_append hmem, hapart.replaceEach_append hmem, ih,
        List.append_assoc]
  | kept c rest hnone ih =>
      rw [replaceEach_cons hnone, List.cons_append, replaceEach_cons, ih, List.cons_append]
      intro binding hmem hbegins
      exact hnone binding hmem (prefix_of_not_overlaps (List.cons_ne_nil c rest)
        (hoverlap binding hmem) hbegins)

/-- Where a pattern stands, no other that is apart from it begins. -/
theorem Apart.not_prefix_append {first second : List Char} (hapart : Apart first second)
    {tail : List Char} (htail : tail <:+ first) (hne : tail ≠ []) (after : List Char) :
    ¬second <+: tail ++ after := by
  intro hbegins
  have hmeets : tail <+: second ∨ second <+: tail :=
    List.prefix_or_prefix_of_prefix (List.prefix_append tail after) hbegins
  by_cases hwhole : tail = first
  · rw [hwhole] at hmeets
    exact hmeets.elim hapart.notPrefix hapart.notPrefixOf
  · exact hapart.notOverlaps ⟨tail, hne, htail, hwhole, hmeets⟩

/-- A pattern is left as it is where only patterns apart from it are replaced. -/
theorem replaceEach_other {pattern : List Char}
    (hapart : ∀ binding ∈ bindings, Apart pattern binding.1) (after : List Char) :
    replaceEach bindings (pattern ++ after) = pattern ++ replaceEach bindings after := by
  -- The induction is over the ends of the pattern, in none of which another one begins.
  have hends (tail : List Char) (htail : tail <:+ pattern) :
      replaceEach bindings (tail ++ after) = tail ++ replaceEach bindings after := by
    induction tail with
    | nil => rfl
    | cons c rest ih =>
        rw [List.cons_append, replaceEach_cons, ih ((List.suffix_cons c rest).trans htail),
          List.cons_append]
        intro binding hmem
        exact (hapart binding hmem).not_prefix_append htail (List.cons_ne_nil c rest) after
  exact hends pattern List.suffix_rfl

/-- An occurrence of a pattern is replaced, and so is what stands before and behind it. -/
theorem KeepApart.replaceEach_around (hapart : KeepApart (bindings.map Prod.fst))
    {pattern replacement : List Char} (hmem : (pattern, replacement) ∈ bindings)
    (before after : List Char) :
    replaceEach bindings (before ++ (pattern ++ after)) =
      replaceEach bindings before ++ (replacement ++ replaceEach bindings after) := by
  rw [hapart.replaceEach_before, hapart.replaceEach_append hmem]
  intro binding hbinding
  exact hapart.noOverlap _ (List.mem_map_of_mem hbinding) _ (List.mem_map_of_mem hmem)

/-- An occurrence of another pattern stays, between the replaced parts before and behind it. -/
theorem KeepApart.replaceEach_around_other (hapart : KeepApart (bindings.map Prod.fst))
    {pattern : List Char} (hother : ∀ binding ∈ bindings, Apart pattern binding.1)
    (before after : List Char) :
    replaceEach bindings (before ++ (pattern ++ after)) =
      replaceEach bindings before ++ (pattern ++ replaceEach bindings after) := by
  rw [hapart.replaceEach_before, replaceEach_other hother]
  exact fun binding hbinding => (hother binding hbinding).notOverlapped

/-- What occurs around a pattern that is apart from it occurs on one of the two sides. -/
theorem Apart.infix_append {pattern other : List Char} (hapart : Apart pattern other)
    {before after : List Char} (hwithin : other <:+: before ++ (pattern ++ after)) :
    other <:+: before ∨ other <:+: after := by
  have hends (tail : List Char) (htail : tail <:+ pattern) (hwithin : other <:+: tail ++ after) :
      other <:+: after := by
    induction tail with
    | nil => exact hwithin
    | cons c rest ih =>
        refine ih ((List.suffix_cons c rest).trans htail)
          ((List.infix_cons_iff.mp hwithin).resolve_left ?_)
        exact hapart.not_prefix_append htail (List.cons_ne_nil c rest) after
  induction before with
  | nil => exact .inr (hends pattern List.suffix_rfl hwithin)
  | cons c rest ih =>
      rcases List.infix_cons_iff.mp hwithin with hbegins | hinside
      · exact .inl (prefix_of_not_overlaps (List.cons_ne_nil c rest) hapart.notOverlapped
          hbegins).isInfix
      · exact (ih hinside).imp_left fun hrest => hrest.trans (List.suffix_cons c rest).isInfix

/-- A pattern that does not occur need not be looked for. -/
theorem KeepApart.replaceEach_concat_of_absent {pattern : List Char} (replacement : List Char)
    (hapart : KeepApart ((bindings ++ [(pattern, replacement)]).map Prod.fst))
    {chars : List Char} (habsent : ¬pattern <:+: chars) :
    replaceEach (bindings ++ [(pattern, replacement)]) chars = replaceEach bindings chars := by
  have hfewer := hapart.left
  induction chars using hfewer.induction with
  | nil => rfl
  | replaced other text rest hmem ih =>
      rw [hfewer.replaceEach_append hmem,
        hapart.replaceEach_append (List.mem_append_left _ hmem), ih]
      exact fun hwithin => habsent (hwithin.trans (List.suffix_append other rest).isInfix)
  | kept c rest hnone ih =>
      rw [replaceEach_cons hnone, replaceEach_cons, ih]
      · exact fun hwithin => habsent (hwithin.trans (List.suffix_cons c rest).isInfix)
      · intro binding hmem hbegins
        rcases List.mem_append.mp hmem with hmem | hmem
        · exact hnone binding hmem hbegins
        · rw [List.mem_singleton.mp hmem] at hbegins
          exact habsent hbegins.isInfix

/-! ## Patterns that are formed -/

/-- Whether replacing at once brings a pattern into some part of a text in which it did not
occur. -/
def Forms (bindings : List (List Char × List Char)) (pattern chars : List Char) : Prop :=
  ∃ part, part <:+: chars ∧ ¬pattern <:+: part ∧ pattern <:+: replaceEach bindings part

theorem Forms.of_infix {pattern part chars : List Char} (hforms : Forms bindings pattern part)
    (hpart : part <:+: chars) : Forms bindings pattern chars := by
  obtain ⟨inner, hinner, hbefore, hafter⟩ := hforms
  exact ⟨inner, hinner.trans hpart, hbefore, hafter⟩

/-- A pattern at the end of a list and those before it are apart. -/
theorem KeepApart.concat_apart {pattern replacement : List Char}
    (hapart : KeepApart ((bindings ++ [(pattern, replacement)]).map Prod.fst)) :
    ∀ binding ∈ bindings, Apart pattern binding.1 := by
  intro binding hmem
  have hnodup := hapart.nodup
  rw [List.map_append, List.map_singleton, List.nodup_append] at hnodup
  refine hapart.apart (by simp) (List.mem_map_of_mem (List.mem_append_left _ hmem)) ?_
  exact (hnodup.2.2 binding.1 (List.mem_map_of_mem hmem) pattern (List.mem_singleton_self _)).symm

theorem replaceEach_empty (chars : List Char) : replaceEach [] chars = chars := by
  induction chars with
  | nil => rfl
  | cons c rest ih => rw [replaceEach_cons (by simp), ih]

/-- One more pattern may be replaced afterwards, unless the others form it. -/
theorem KeepApart.replaceFrom_replaceEach {pattern replacement : List Char}
    (hapart : KeepApart ((bindings ++ [(pattern, replacement)]).map Prod.fst)) {chars : List Char}
    (hforms : ¬Forms bindings pattern chars) :
    replaceFrom pattern replacement 0 (replaceEach bindings chars) =
      replaceEach (bindings ++ [(pattern, replacement)]) chars := by
  have hnonempty : pattern ≠ [] := hapart.nonempty pattern (by simp)
  have halone : KeepApart ([(pattern, replacement)].map Prod.fst) :=
    hapart.of_subset (by simp) (List.nodup_singleton pattern)
  have hself {part : List Char} (hpart : ¬pattern <:+: part) :
      replaceEach [(pattern, replacement)] part = part :=
    (@KeepApart.replaceEach_concat_of_absent [] pattern replacement halone part hpart).trans
      (replaceEach_empty part)
  rw [replaceFrom_eq_replaceEach, ← replaceEach]
  induction hlength : chars.length using Nat.strong_induction_on generalizing chars with
  | _ length ih =>
      by_cases hoccurs : pattern <:+: chars
      · obtain ⟨before, after, rfl, hbefore⟩ := exists_first_infix hnonempty hoccurs
        -- The part before the first occurrence is done with, the part behind it is shorter.
        have hfree : ¬pattern <:+: replaceEach bindings before :=
          fun hformed => hforms ⟨before, (List.prefix_append before _).isInfix, hbefore, hformed⟩
        have hafter : ¬Forms bindings pattern after :=
          fun hformed => hforms (hformed.of_infix (infix_append_append before pattern after))
        have hshorter : after.length < length := by
          have hpos := List.length_pos_of_ne_nil hnonempty
          rw [← hlength, List.length_append, List.length_append]
          omega
        rw [hapart.left.replaceEach_around_other hapart.concat_apart,
          halone.replaceEach_around List.mem_cons_self,
          hapart.replaceEach_around (List.mem_append_right _ List.mem_cons_self), hself hfree,
          hapart.replaceEach_concat_of_absent replacement hbefore, ih _ hshorter hafter rfl]
      · have hfree : ¬pattern <:+: replaceEach bindings chars :=
          fun hformed => hforms ⟨chars, List.infix_rfl, hoccurs, hformed⟩
        rw [hself hfree, hapart.replaceEach_concat_of_absent replacement hoccurs]

/-- Replacing one more pattern does not keep another from being formed. -/
theorem Forms.concat {pattern replacement other chars : List Char}
    (hforms : Forms bindings other chars)
    (hapart : KeepApart ((bindings ++ [(pattern, replacement)]).map Prod.fst))
    (hother : Apart pattern other) :
    Forms (bindings ++ [(pattern, replacement)]) other chars := by
  obtain ⟨part, hpart, hbefore, hafter⟩ := hforms
  have hnonempty : pattern ≠ [] := hapart.nonempty pattern (by simp)
  induction hlength : part.length using Nat.strong_induction_on generalizing part with
  | _ length ih =>
      by_cases hoccurs : pattern <:+: part
      · obtain ⟨left, right, rfl, -⟩ := exists_first_infix hnonempty hoccurs
        have hpos := List.length_pos_of_ne_nil hnonempty
        rw [List.length_append, List.length_append] at hlength
        rw [hapart.left.replaceEach_around_other hapart.concat_apart] at hafter
        -- The other pattern is formed on one side of the occurrence, which stays as it is.
        rcases hother.infix_append hafter with hformed | hformed
        · have hleft : left <:+: left ++ (pattern ++ right) := (List.prefix_append left _).isInfix
          exact ih left.length (by omega) left (hleft.trans hpart)
            (fun hwithin => hbefore (hwithin.trans hleft)) hformed rfl
        · have hright := infix_append_append left pattern right
          exact ih right.length (by omega) right (hright.trans hpart)
            (fun hwithin => hbefore (hwithin.trans hright)) hformed rfl
      · refine ⟨part, hpart, hbefore, ?_⟩
        rwa [hapart.replaceEach_concat_of_absent replacement hoccurs]

theorem Forms.append {others : List (List Char × List Char)} {pattern chars : List Char}
    (hforms : Forms bindings pattern chars)
    (hapart : KeepApart ((bindings ++ others).map Prod.fst))
    (hothers : ∀ binding ∈ others, Apart binding.1 pattern) :
    Forms (bindings ++ others) pattern chars := by
  induction others generalizing bindings with
  | nil => rwa [List.append_nil]
  | cons binding others ih =>
      obtain ⟨hbinding, hothers⟩ := List.forall_mem_cons.mp hothers
      rw [List.append_cons] at hapart ⊢
      exact ih (hforms.concat hapart.left hbinding) hapart hothers

/-! ## One after the other -/

/-- Patterns can be replaced one after the other, unless those before one of them form it. -/
theorem KeepApart.foldl_replaceFrom (hapart : KeepApart (bindings.map Prod.fst)) {chars : List Char}
    (hforms : ∀ before binding after, bindings = before ++ binding :: after →
      ¬Forms before binding.1 chars) :
    bindings.foldl (fun text binding => replaceFrom binding.1 binding.2 0 text) chars =
      replaceEach bindings chars := by
  induction bindings using List.reverseRecOn with
  | nil => exact (replaceEach_empty chars).symm
  | append_singleton bindings binding ih =>
      rw [List.foldl_append, List.foldl_cons, List.foldl_nil, ih hapart.left,
        hapart.replaceFrom_replaceEach (hforms bindings binding [] rfl)]
      rintro before other after rfl
      exact hforms before other (after ++ [binding]) (by simp)

/-- Patterns can be replaced one after the other in any order, unless all together form one of
them. -/
theorem KeepApart.foldl_replaceFrom_perm (hapart : KeepApart (bindings.map Prod.fst))
    {chars : List Char} (hforms : ∀ binding ∈ bindings, ¬Forms bindings binding.1 chars)
    {others : List (List Char × List Char)} (hperm : others.Perm bindings) :
    others.foldl (fun text binding => replaceFrom binding.1 binding.2 0 text) chars =
      replaceEach bindings chars := by
  have hothers : KeepApart (others.map Prod.fst) := hapart.perm (hperm.map Prod.fst)
  rw [← hapart.replaceEach_perm hperm]
  apply hothers.foldl_replaceFrom
  rintro before ⟨pattern, replacement⟩ after rfl hformed
  have hlast : ((before ++ after) ++ [(pattern, replacement)]).Perm bindings :=
    (List.perm_append_singleton _ _).trans (List.perm_middle.symm.trans hperm)
  have hlastApart := hapart.perm (hlast.map Prod.fst)
  obtain ⟨part, hpart, hbefore, hafter⟩ := hformed.append hlastApart.left fun binding hmem =>
    (hlastApart.concat_apart binding (List.mem_append_right before hmem)).symm
  refine hforms (pattern, replacement) (hperm.subset (by simp)) ⟨part, hpart, hbefore, ?_⟩
  rwa [← hapart.replaceEach_perm hlast, hlastApart.replaceEach_concat_of_absent _ hbefore]

end AtScript.Text
