import AtScript.Engine.Function
import AtScript.Proofs.ByteSlices

/-! # Templates filled in by offsets

A machine finds the braces of a template by their byte offsets and cuts the template there. No cut
is inside a character or behind the end, and the result is that of `format`.
-/

namespace AtScript

/-- The offset of the first byte of a character in a text. -/
def Text.offsetOf? (c : Char) (chars : List Char) : Option Nat :=
  if c ∈ chars then some (byteLength (chars.takeWhile (· != c))) else none

/-- The first occurrence of a character stands after what is before it. -/
theorem Text.offsetOf?_append {c : Char} {before : List Char} (hbefore : c ∉ before)
    (after : List Char) : offsetOf? c (before ++ c :: after) = some (byteLength before) := by
  have hwhile : (before ++ c :: after).takeWhile (· != c) = before := by
    rw [List.takeWhile_append_of_pos, List.takeWhile_cons_of_neg (by simp), List.append_nil]
    intro d hmem
    rw [bne_iff_ne]
    intro heq
    exact hbefore (heq ▸ hmem)
  rw [offsetOf?, if_pos (by simp), hwhile]

namespace Decimal

theorem isDigit_of_wordFrom? {chars : List Char} {start value : Nat}
    (hvalue : wordFrom? start chars = some value) : ∀ c ∈ chars, c.isDigit = true := by
  induction chars generalizing start with
  | nil => simp
  | cons first rest ih =>
      rw [wordFrom?] at hvalue
      split at hvalue
      next hdigit =>
        dsimp only at hvalue
        split at hvalue
        next => exact List.forall_mem_cons.mpr ⟨hdigit, ih hvalue⟩
        next => cases hvalue
      next => cases hvalue

/-- Whether a character can be part of a number without a sign of its own. -/
def isNumeral (c : Char) : Bool :=
  c.isDigit || c == '+'

theorem isNumeral_of_word64? {chars : List Char} {value : Nat}
    (hvalue : word64? chars = some value) : ∀ c ∈ chars, isNumeral c = true := by
  have hdigits {digits : List Char} (hnatural : natural? digits = some value) :
      ∀ c ∈ digits, isNumeral c = true := by
    intro c hmem
    rw [natural?] at hnatural
    split at hnatural
    next => cases hnatural
    next => rw [isNumeral, isDigit_of_wordFrom? hnatural c hmem, Bool.true_or]
  unfold word64? at hvalue
  split at hvalue
  next => exact List.forall_mem_cons.mpr ⟨rfl, hdigits hvalue⟩
  next => exact hdigits hvalue

end Decimal

namespace Function

/-- As `placeholder?`, by offsets, for a text that starts with an opening brace. The second result
is the offset of the closing brace. -/
def placeholderAt? (values : List String) (tail : List Char) : Option (Option (String × Nat)) :=
  match Text.offsetOf? '\x7d' tail with
  | none => some none
  | some closing => do
    let index ← Text.cut? tail 1 closing
    return ((Decimal.word64? index).bind (values[·]?)).map fun value => (value, closing)

/-- Fills in placeholders by offsets, in at most `budget` steps. -/
def fillAt? (values : List String) : Nat → List Char → Option (List Char)
  | 0, _ => none
  | budget + 1, rest =>
    match Text.offsetOf? '\x7b' rest with
    | none => some rest
    | some opening => do
      let before ← Text.cut? rest 0 opening
      let tail ← Text.cutFrom? rest opening
      match ← placeholderAt? values tail with
      | some (value, closing) =>
        let after ← Text.cutFrom? tail (closing + 1)
        return before ++ (value.toList ++ (← fillAt? values budget after))
      | none =>
        let after ← Text.cutFrom? tail 1
        return before ++ '\x7b' :: (← fillAt? values budget after)

/-- As `format`, by offsets. Every step takes a brace, so there are no more steps than
characters. -/
def format? (template : String) (values : List String) : Option String :=
  (fillAt? values (template.length + 1) template.toList).map String.ofList

theorem fillFrom_drop (values : Array String) (skip : Nat) (chars : List Char) :
    fillFrom values skip chars = fillFrom values 0 (chars.drop skip) := by
  induction skip generalizing chars with
  | zero => rfl
  | succ skip ih =>
      cases chars with
      | nil => simp [fillFrom]
      | cons c rest => exact ih rest

theorem fillFrom_append (values : Array String) {before : List Char}
    (hbefore : '\x7b' ∉ before) (rest : List Char) :
    fillFrom values 0 (before ++ rest) = before ++ fillFrom values 0 rest := by
  induction before with
  | nil => rfl
  | cons c more ih =>
      rw [List.mem_cons, not_or] at hbefore
      rw [List.cons_append, fillFrom, if_neg (Ne.symm hbefore.1), ih hbefore.2, List.cons_append]

/-- Without a closing brace there is no placeholder. -/
theorem placeholder?_of_not_mem (values : Array String) {rest : List Char}
    (hrest : '\x7d' ∉ rest) : placeholder? values rest = none := by
  rw [placeholder?, if_neg]
  intro hhead
  exact hrest (List.mem_of_mem_drop (List.mem_of_mem_head? hhead))

theorem head?_drop_takeWhile (test : Char → Bool) (chars : List Char) :
    (chars.drop (chars.takeWhile test).length).head? = chars.find? (!test ·) := by
  induction chars with
  | nil => rfl
  | cons c rest ih =>
      cases htest : test c with
      | true => simpa [htest] using ih
      | false => simp [htest]

/-- A placeholder reaches to the first closing brace. -/
theorem placeholder?_append (values : List String) {index : List Char}
    (hindex : '\x7d' ∉ index) (rest : List Char) :
    placeholder? values.toArray (index ++ '\x7d' :: rest) =
      ((Decimal.word64? index).bind (values[·]?)).map fun value => (value, index.length + 1) := by
  have hwhile : (fun c : Char => c.isDigit || c == '+') = Decimal.isNumeral := rfl
  rw [placeholder?, hwhile]
  by_cases hall : ∀ c ∈ index, Decimal.isNumeral c = true
  · rw [List.takeWhile_append_of_pos hall, List.takeWhile_cons_of_neg (by decide),
      List.append_nil, List.drop_left, List.head?_cons, if_pos rfl]
    simp only [List.getElem?_toArray]
  · -- Some other character comes before the brace, so this is no number.
    have hnone : Decimal.word64? index = none := by
      rw [Option.eq_none_iff_forall_ne_some]
      intro value hvalue
      exact hall (Decimal.isNumeral_of_word64? hvalue)
    obtain ⟨other, hfound⟩ : ∃ other, index.find? (!Decimal.isNumeral ·) = some other := by
      rw [← Option.isSome_iff_exists, List.find?_isSome]
      simpa using hall
    have hother : other ≠ '\x7d' := by
      intro heq
      exact hindex (heq ▸ List.mem_of_find?_eq_some hfound)
    rw [hnone, head?_drop_takeWhile, List.find?_append, hfound, if_neg (by simpa using hother)]
    rfl

/-- What is found behind an opening brace by offsets is what is found character by character. -/
theorem placeholderAt?_eq (values : List String) (rest : List Char) :
    placeholderAt? values ('\x7b' :: rest) = some none ∧
        placeholder? values.toArray rest = none ∨
      ∃ value before after, rest = before ++ after ∧
        placeholderAt? values ('\x7b' :: rest) = some (some (value, Text.byteLength before)) ∧
        placeholder? values.toArray rest = some (value, before.length) := by
  by_cases hmem : '\x7d' ∈ rest
  · obtain ⟨index, after, rfl, hindex⟩ := List.eq_append_cons_of_mem hmem
    have hoffset : Text.offsetOf? '\x7d' ('\x7b' :: (index ++ '\x7d' :: after)) =
        some (1 + Text.byteLength index) :=
      @Text.offsetOf?_append _ ('\x7b' :: index) (by simpa using hindex) after
    have hcut : Text.cut? ('\x7b' :: (index ++ '\x7d' :: after)) 1 (1 + Text.byteLength index) =
        some index := Text.cut?_append ['\x7b'] index ('\x7d' :: after)
    have hplace : placeholderAt? values ('\x7b' :: (index ++ '\x7d' :: after)) =
        some (((Decimal.word64? index).bind (values[·]?)).map
          fun value => (value, 1 + Text.byteLength index)) := by
      simp only [placeholderAt?, hoffset, hcut]
      rfl
    rw [hplace, placeholder?_append values hindex]
    cases (Decimal.word64? index).bind (values[·]?) with
    | none => exact .inl ⟨rfl, rfl⟩
    | some value =>
        refine .inr ⟨value, index ++ ['\x7d'], after, by simp, ?_, by simp⟩
        rw [Text.byteLength_append, Nat.add_comm]
        rfl
  · have hoffset : Text.offsetOf? '\x7d' ('\x7b' :: rest) = none := by
      rw [Text.offsetOf?, if_neg (by simpa using hmem)]
    rw [placeholderAt?, hoffset]
    exact .inl ⟨rfl, placeholder?_of_not_mem _ hmem⟩

theorem fillAt?_eq (values : List String) {budget : Nat} {rest : List Char}
    (hbudget : rest.length < budget) :
    fillAt? values budget rest = some (fillFrom values.toArray 0 rest) := by
  induction budget generalizing rest with
  | zero => cases hbudget
  | succ budget ih =>
      by_cases hmem : '\x7b' ∈ rest
      · obtain ⟨before, tail, rfl, hbefore⟩ := List.eq_append_cons_of_mem hmem
        have hcut : Text.cut? (before ++ '\x7b' :: tail) 0 (Text.byteLength before) =
            some before := by
          have hcut := Text.cut?_append [] before ('\x7b' :: tail)
          rwa [Text.byteLength, Nat.zero_add] at hcut
        have hfrom := Text.cutFrom?_append before ('\x7b' :: tail)
        rw [List.length_append, List.length_cons] at hbudget
        rw [fillFrom_append values.toArray hbefore, fillFrom, if_pos rfl]
        simp only [fillAt?, Text.offsetOf?_append hbefore, hcut, hfrom, Option.bind_eq_bind,
          Option.bind_some]
        rcases placeholderAt?_eq values tail with
          ⟨hplace, hplain⟩ | ⟨value, inside, after, rfl, hplace, hplain⟩
        · have hone : Text.cutFrom? ('\x7b' :: tail) 1 = some tail :=
            Text.cutFrom?_append ['\x7b'] tail
          have hrest := @ih tail (by omega)
          simp only [hplace, hplain, Option.bind_some, hone, hrest]
          rfl
        · have hbehind : Text.cutFrom? ('\x7b' :: (inside ++ after))
              (Text.byteLength inside + 1) = some after := by
            rw [Nat.add_comm]
            exact Text.cutFrom?_append ('\x7b' :: inside) after
          have hrest := @ih after (by
            rw [List.length_append] at hbudget
            omega)
          simp only [hplace, hplain, Option.bind_some, hbehind, hrest]
          rw [fillFrom_drop values.toArray inside.length, List.drop_left]
          rfl
      · have hoffset : Text.offsetOf? '\x7b' rest = none := by
          rw [Text.offsetOf?, if_neg hmem]
        have hplain := fillFrom_append values.toArray hmem []
        rw [List.append_nil, fillFrom, List.append_nil] at hplain
        rw [fillAt?, hoffset, hplain]

theorem format?_eq (template : String) (values : List String) :
    format? template values = some (format template values) := by
  rw [format?, fillAt?_eq values, Option.map_some, format]
  rw [String.length_toList]
  exact Nat.lt_succ_self _

end Function

end AtScript
