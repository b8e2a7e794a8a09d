import AtScript.Proofs.Numerals

/-! # Placeholders are filled in all at once

Which braces of a template are placeholders depends on the template alone, and no two placeholders
overlap. The result of `format` has the values in their places and every other character as it is.
-/

namespace AtScript

theorem Decimal.word64?_eq_some_iff {chars : List Char} {number : Nat} :
    word64? chars = some number ↔
      Denotes chars number ∧ '-' ∉ chars ∧ number < UInt64.size := by
  have hminus {digits : List Char} (hdigits : ∀ c ∈ digits, c.isDigit = true) : '-' ∉ digits :=
    fun hmem => absurd (hdigits '-' hmem) (by decide)
  constructor
  · intro hread
    unfold word64? at hread
    split at hread
    next digits =>
      obtain ⟨hne, hdigits, rfl, hfits⟩ := natural?_eq_some_iff.mp hread
      refine ⟨.plus hne hdigits, ?_, hfits⟩
      rw [List.mem_cons, not_or]
      exact ⟨by decide, hminus hdigits⟩
    next =>
      obtain ⟨hne, hdigits, rfl, hfits⟩ := natural?_eq_some_iff.mp hread
      exact ⟨.bare hne hdigits, hminus hdigits, hfits⟩
  · rintro ⟨hdenotes, hsign, hfits⟩
    generalize hvalue : (number : Int) = value at hdenotes
    cases hdenotes with
    | bare hne hdigits =>
        have hread := natural?_eq_some_iff.mpr ⟨hne, hdigits, (Int.ofNat.inj hvalue).symm, hfits⟩
        unfold word64?
        split
        next => exact absurd (hdigits '+' List.mem_cons_self) (by decide)
        next => exact hread
    | plus hne hdigits =>
        exact natural?_eq_some_iff.mpr ⟨hne, hdigits, (Int.ofNat.inj hvalue).symm, hfits⟩
    | minus => exact absurd List.mem_cons_self hsign

namespace Function

variable {values : List String} {template : List Char}

/-! ## Where placeholders are -/

/-- A part of a template, from one position to before another, that stands for a value: an opening
brace with all that follows up to the next closing one, where the text in between is the number of
the value. The number may have a plus sign, but no minus sign, and fits 64 bits. -/
inductive Placeholder (values : List String) (template : List Char) : Nat → Nat → String → Prop
  | braces {before index after : List Char} {number : Nat} {value : String}
      (htemplate : template = before ++ '\x7b' :: (index ++ '\x7d' :: after))
      (hclosing : '\x7d' ∉ index) (hnumber : Decimal.Denotes index number) (hsign : '-' ∉ index)
      (hfits : number < UInt64.size) (hvalue : values[number]? = some value) :
      Placeholder values template before.length (before.length + 1 + (index.length + 1)) value

/-- Behind an opening brace, `placeholder?` finds the placeholder that starts there. -/
theorem placeholder_iff {before rest : List Char} {stop : Nat} {value : String} :
    Placeholder values (before ++ '\x7b' :: rest) before.length stop value ↔
      ∃ length, stop = before.length + 1 + length ∧
        placeholder? values.toArray rest = some (value, length) := by
  constructor
  · intro hplace
    generalize hstart : before.length = start at hplace
    obtain ⟨htemplate, hclosing, hnumber, hsign, hfits, hvalue⟩ := hplace
    obtain ⟨rfl, hrest⟩ := List.append_inj htemplate hstart
    cases hrest
    refine ⟨_, rfl, ?_⟩
    rw [placeholder?_append values hclosing,
      Decimal.word64?_eq_some_iff.mpr ⟨hnumber, hsign, hfits⟩, Option.bind_some, hvalue]
    rfl
  · rintro ⟨length, rfl, hplace⟩
    by_cases hmem : '\x7d' ∈ rest
    · obtain ⟨index, after, rfl, hclosing⟩ := List.eq_append_cons_of_mem hmem
      rw [placeholder?_append values hclosing] at hplace
      obtain ⟨_, hfound, ⟨⟩⟩ := Option.map_eq_some_iff.mp hplace
      obtain ⟨number, hword, hvalue⟩ := Option.bind_eq_some_iff.mp hfound
      obtain ⟨hnumber, hsign, hfits⟩ := Decimal.word64?_eq_some_iff.mp hword
      exact .braces rfl hclosing hnumber hsign hfits hvalue
    · rw [placeholder?_of_not_mem _ hmem] at hplace
      cases hplace

namespace Placeholder

variable {start stop start' stop' : Nat} {value value' : String}

theorem getElem?_start (hplace : Placeholder values template start stop value) :
    template[start]? = some '\x7b' := by
  obtain ⟨rfl, -, -, -, -, -⟩ := hplace
  exact List.getElem?_append_right (Nat.le_refl _) |>.trans (by simp)

theorem start_lt (hplace : Placeholder values template start stop value) : start < stop := by
  obtain ⟨-, -, -, -, -, -⟩ := hplace
  omega

/-- No other opening brace is inside a placeholder. -/
theorem getElem?_ne (hplace : Placeholder values template start stop value) {position : Nat}
    (hstart : start < position) (hstop : position < stop) : template[position]? ≠ some '\x7b' := by
  obtain @⟨before, index, after, number, value, rfl, -, hnumber, -, -, -⟩ := hplace
  obtain ⟨further, rfl⟩ := Nat.exists_eq_add_of_lt hstart
  have hopening : '\x7b' ∉ index := fun hmem =>
    absurd (hnumber.mem_numerals hmem) (by decide)
  intro hbrace
  rw [List.getElem?_append_right (by omega), Nat.add_assoc, Nat.add_sub_cancel_left,
    List.getElem?_cons_succ] at hbrace
  rcases Nat.lt_or_ge further index.length with hless | hmore
  · rw [List.getElem?_append_left hless] at hbrace
    exact hopening (List.mem_of_getElem? hbrace)
  · obtain rfl : further = index.length := by omega
    rw [List.getElem?_append_right (Nat.le_refl _), Nat.sub_self, List.getElem?_cons_zero,
      Option.some.injEq] at hbrace
    exact absurd hbrace (by decide)

theorem unique (hplace : Placeholder values template start stop value)
    (hplace' : Placeholder values template start stop' value') : stop = stop' ∧ value = value' := by
  obtain ⟨rfl, -, -, -, -, -⟩ := id hplace
  obtain ⟨length, rfl, hfound⟩ := placeholder_iff.mp hplace'
  obtain ⟨_, hstop, hfound'⟩ := placeholder_iff.mp hplace
  cases hfound.symm.trans hfound'
  exact ⟨hstop, rfl⟩

theorem stop_le (hplace : Placeholder values template start stop value)
    (hplace' : Placeholder values template start' stop' value') (hstart : start < start') :
    stop ≤ start' := by
  by_contra hstop
  exact hplace.getElem?_ne hstart (Nat.lt_of_not_le hstop) hplace'.getElem?_start

/-- Two placeholders are the same or do not overlap. -/
theorem apart (hplace : Placeholder values template start stop value)
    (hplace' : Placeholder values template start' stop' value') :
    stop ≤ start' ∨ stop' ≤ start ∨ start = start' ∧ stop = stop' ∧ value = value' := by
  rcases Nat.lt_trichotomy start start' with hless | rfl | hmore
  · exact .inl (hplace.stop_le hplace' hless)
  · exact .inr (.inr ⟨rfl, hplace.unique hplace'⟩)
  · exact .inr (.inl (hplace'.stop_le hplace hmore))

end Placeholder

/-- A position that no placeholder reaches across. -/
def Clear (values : List String) (template : List Char) (position : Nat) : Prop :=
  ∀ start stop value, Placeholder values template start stop value →
    start < position → stop ≤ position

theorem Placeholder.clear_stop {start stop : Nat} {value : String}
    (hplace : Placeholder values template start stop value) : Clear values template stop := by
  intro start' stop' value' hplace' hstart'
  have hlt := hplace.start_lt
  have hapart := hplace.apart hplace'
  omega

theorem Clear.succ {position : Nat} (hclear : Clear values template position)
    (hnone : ∀ stop value, ¬ Placeholder values template position stop value) :
    Clear values template (position + 1) := by
  intro start stop value hplace hstart
  rcases Nat.lt_succ_iff_lt_or_eq.mp hstart with hless | rfl
  · exact Nat.le_succ_of_le (hclear start stop value hplace hless)
  · exact absurd hplace (hnone stop value)

/-! ## What each position gives -/

/-- A position that belongs to no placeholder. -/
def Outside (values : List String) (template : List Char) (position : Nat) : Prop :=
  ∀ start stop value, Placeholder values template start stop value →
    position < start ∨ stop ≤ position

theorem Placeholder.not_outside {start stop position : Nat} {value : String}
    (hplace : Placeholder values template start stop value) (hstart : start ≤ position)
    (hstop : position < stop) : ¬Outside values template position := by
  intro houtside
  have hapart := houtside start stop value hplace
  omega

/-- The characters of the result that come from a position of the template. -/
inductive Contributes (values : List String) (template : List Char) (position : Nat) :
    List Char → Prop
  | value {stop : Nat} {value : String}
      (hplace : Placeholder values template position stop value) :
      Contributes values template position value.toList
  | inside {start stop : Nat} {value : String}
      (hplace : Placeholder values template start stop value) (hstart : start < position)
      (hstop : position < stop) : Contributes values template position []
  | kept {c : Char} (hchar : template[position]? = some c)
      (houtside : Outside values template position) : Contributes values template position [c]

/-- Every position gives one text only. -/
theorem Contributes.unique {position : Nat} {part other : List Char}
    (hpart : Contributes values template position part)
    (hother : Contributes values template position other) : part = other := by
  cases hpart with
  | value hplace =>
      cases hother with
      | value hplace' => rw [(hplace.unique hplace').2]
      | inside hplace' hstart hstop =>
          exact absurd hplace.getElem?_start (hplace'.getElem?_ne hstart hstop)
      | kept _ houtside =>
          exact absurd houtside (hplace.not_outside (Nat.le_refl _) hplace.start_lt)
  | inside hplace hstart hstop =>
      cases hother with
      | value hplace' => exact absurd hplace'.getElem?_start (hplace.getElem?_ne hstart hstop)
      | inside => rfl
      | kept _ houtside =>
          exact absurd houtside (hplace.not_outside (Nat.le_of_lt hstart) hstop)
  | kept hchar houtside =>
      cases hother with
      | value hplace' =>
          exact absurd houtside (hplace'.not_outside (Nat.le_refl _) hplace'.start_lt)
      | inside hplace' hstart hstop =>
          exact absurd houtside (hplace'.not_outside (Nat.le_of_lt hstart) hstop)
      | kept hchar' =>
          cases hchar.symm.trans hchar'
          rfl

/-- The text that the positions from one to before another give together. -/
inductive Fills (values : List String) (template : List Char) : Nat → Nat → List Char → Prop
  | nil (position : Nat) : Fills values template position position []
  | cons {position stop : Nat} {part rest : List Char}
      (hpart : Contributes values template position part)
      (hrest : Fills values template (position + 1) stop rest) :
      Fills values template position stop (part ++ rest)

namespace Fills

theorem start_le {start stop : Nat} {text : List Char}
    (hfills : Fills values template start stop text) : start ≤ stop := by
  induction hfills with
  | nil => exact Nat.le_refl _
  | cons _ _ ih => exact Nat.le_of_succ_le ih

theorem unique {start stop : Nat} {text other : List Char}
    (htext : Fills values template start stop text)
    (hother : Fills values template start stop other) : text = other := by
  induction htext generalizing other with
  | nil =>
      cases hother with
      | nil => rfl
      | cons _ hrest => exact absurd hrest.start_le (Nat.not_succ_le_self _)
  | cons hpart hrest ih =>
      cases hother with
      | nil => exact absurd hrest.start_le (Nat.not_succ_le_self _)
      | cons hpart' hrest' => rw [hpart.unique hpart', ih hrest']

/-- At a clear position, a character that starts no placeholder is kept. -/
theorem kept {position stop : Nat} {c : Char} {rest : List Char}
    (hchar : template[position]? = some c) (hclear : Clear values template position)
    (hnone : ∀ stop value, ¬ Placeholder values template position stop value)
    (hrest : Fills values template (position + 1) stop rest) :
    Fills values template position stop (c :: rest) := by
  refine .cons (.kept hchar fun start stop value hplace => ?_) hrest
  rcases Nat.lt_trichotomy start position with hless | rfl | hmore
  · exact .inr (hclear start stop value hplace hless)
  · exact absurd hplace (hnone stop value)
  · exact .inl hmore

/-- What `format` makes of the rest of a template behind the characters it skips. The induction
keeps that these give nothing and that no placeholder extends beyond them. -/
theorem of_fillFrom {before rest : List Char} {skip : Nat} (htemplate : template = before ++ rest)
    (hclear : Clear values template (before.length + skip))
    (hskip : ∀ position, before.length ≤ position → position < before.length + skip →
      Contributes values template position []) :
    Fills values template before.length template.length (fillFrom values.toArray skip rest) := by
  induction rest generalizing before skip with
  | nil =>
      rw [htemplate, List.append_nil, fillFrom]
      exact .nil _
  | cons c rest ih =>
      have hchar : template[before.length]? = some c := by
        rw [htemplate, List.getElem?_append_right (Nat.le_refl _), Nat.sub_self]
        rfl
      have hnext {skip : Nat} (hclear : Clear values template (before.length + 1 + skip))
          (hskip : ∀ position, before.length < position → position < before.length + 1 + skip →
            Contributes values template position []) :
          Fills values template (before.length + 1) template.length
            (fillFrom values.toArray skip rest) := by
        have hlonger : (before ++ [c]).length = before.length + 1 := by simp
        rw [← hlonger] at hclear hskip ⊢
        exact ih (by simpa using htemplate) hclear fun position hlower => hskip position (by omega)
      cases skip with
      | succ skip =>
          rw [← Nat.add_assoc, Nat.add_right_comm] at hclear hskip
          have hrest := hnext hclear fun position hlower => hskip position (Nat.le_of_lt hlower)
          exact .cons (hskip _ (Nat.le_refl _) (by omega)) hrest
      | zero =>
          have hkept (hnone : ∀ stop value,
              ¬ Placeholder values template before.length stop value) :
              Fills values template before.length template.length
                (c :: fillFrom values.toArray 0 rest) :=
            kept hchar hclear hnone (hnext (hclear.succ hnone) fun _ _ _ => by omega)
          rw [fillFrom]
          split
          next hopening =>
            subst hopening htemplate
            cases hfound : placeholder? values.toArray rest with
            | none =>
                refine hkept fun stop value hplace => ?_
                obtain ⟨_, -, hfound'⟩ := placeholder_iff.mp hplace
                cases hfound.symm.trans hfound'
            | some found =>
                obtain ⟨value, skip⟩ := found
                have hplace := (@placeholder_iff values before rest _ value).mpr
                  ⟨skip, rfl, hfound⟩
                exact .cons (.value hplace) (hnext hplace.clear_stop fun _ => .inside hplace)
          next hother =>
            refine hkept fun stop value hplace => hother ?_
            exact Option.some.inj (hchar.symm.trans hplace.getElem?_start)

end Fills

theorem fillFrom_nil (chars : List Char) : fillFrom [].toArray 0 chars = chars := by
  induction chars with
  | nil => rfl
  | cons c rest ih =>
      have hnone : placeholder? [].toArray rest = none := by simp [placeholder?]
      rw [fillFrom, hnone, ih, ite_self]

/-- Filling in a template is one simultaneous replacement. Each of its positions gives a text that
depends on the template and the values alone: a value where a placeholder starts, nothing inside a
placeholder, and the character itself elsewhere. The result is these texts in a row, so values are
not searched for placeholders. No two placeholders overlap. Filling in by offsets comes to its end
with the same result, and without values the result is the template. -/
theorem format_fills_all_at_once (template : String) (values : List String) :
    (∃ result : String, eval .format (template :: values) = .ok result ∧
      format? template values = some result ∧
      Fills values template.toList 0 template.length result.toList) ∧
    (∀ text, Fills values template.toList 0 template.length text →
      eval .format (template :: values) = .ok (String.ofList text)) ∧
    (∀ start stop value start' stop' value',
      Placeholder values template.toList start stop value →
      Placeholder values template.toList start' stop' value' →
      stop ≤ start' ∨ stop' ≤ start ∨ start = start' ∧ stop = stop' ∧ value = value') ∧
    eval .format [template] = .ok template := by
  have hfills : Fills values template.toList 0 template.length (format template values).toList := by
    rw [format, String.toList_ofList, ← String.length_toList]
    exact Fills.of_fillFrom (List.nil_append _).symm (fun _ _ _ _ hstart => by simp at hstart)
      fun _ _ hposition => by simp at hposition
  refine ⟨⟨_, rfl, format?_eq template values, hfills⟩, fun text htext => ?_,
    fun _ _ _ _ _ _ hplace hplace' => hplace.apart hplace', ?_⟩
  · rw [htext.unique hfills, String.ofList_toList]
    rfl
  · have hkept : format template [] = template := by
      rw [format, fillFrom_nil, String.ofList_toList]
    exact congrArg Except.ok hkept

/-- Two of the opening braces in this template start placeholders. What is written for the second
of them looks like a placeholder itself and is kept. -/
theorem nested_braces_are_filled_once :
    let template := "\x7b0\x7b1\x7d\x7bx\x7d\x7b+0\x7d"
    let values := ["\x7b1\x7d", "b"]
    Placeholder values template.toList 2 5 "b" ∧
      Placeholder values template.toList 8 12 "\x7b1\x7d" ∧
      (5 ≤ 8 ∨ 12 ≤ 2 ∨ 2 = 8 ∧ 5 = 12 ∧ "b" = "\x7b1\x7d") ∧
      eval .format (template :: values) = .ok "\x7b0b\x7bx\x7d\x7b1\x7d" ∧
      Fills values template.toList 0 template.length "\x7b0b\x7bx\x7d\x7b1\x7d".toList ∧
      eval .format (template :: values) =
        .ok (String.ofList "\x7b0b\x7bx\x7d\x7b1\x7d".toList) := by
  intro template values
  obtain ⟨⟨result, hresult, -, hfills⟩, hunique, hdisjoint, -⟩ :=
    format_fills_all_at_once template values
  have hfirst : Placeholder values template.toList 2 5 "b" := by
    have htext : template.toList =
        ['\x7b', '0'] ++ '\x7b' :: "1\x7d\x7bx\x7d\x7b+0\x7d".toList := by decide +kernel
    rw [htext]
    exact placeholder_iff.mpr ⟨2, rfl, by decide +kernel⟩
  have hsecond : Placeholder values template.toList 8 12 "\x7b1\x7d" := by
    have htext : template.toList =
        ['\x7b', '0', '\x7b', '1', '\x7d', '\x7b', 'x', '\x7d'] ++ '\x7b' :: "+0\x7d".toList := by
      decide +kernel
    rw [htext]
    exact placeholder_iff.mpr ⟨3, rfl, by decide +kernel⟩
  have hvalue : eval .format (template :: values) = .ok "\x7b0b\x7bx\x7d\x7b1\x7d" := by
    decide +kernel
  obtain rfl : result = "\x7b0b\x7bx\x7d\x7b1\x7d" := Except.ok.inj (hresult.symm.trans hvalue)
  exact ⟨hfirst, hsecond, hdisjoint _ _ _ _ _ _ hfirst hsecond, hresult, hfills,
    hunique _ hfills⟩

end Function

end AtScript
