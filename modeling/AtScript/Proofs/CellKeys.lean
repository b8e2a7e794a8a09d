import AtScript.Proofs.Decimals
import AtScript.Store.Basic
import AtScript.Value.Cell
import Mathlib.Data.List.Basic

/-! # Keys of cells

The key of a cell tells its array and both coordinates apart, whatever the name of the array holds:
behind the last opening bracket of a key stand only the coordinates. The scan for the cells of an
array looks at the start of a key alone and cannot see which bracket is the last.
-/

namespace AtScript

namespace Text

/-- What begins with some characters and a mark, where no mark follows the last one, has that mark
as its last or begins with them before it. -/
theorem prefix_append_cons_iff {mark : Char} {tail : List Char} (htail : mark ∉ tail)
    (start chars : List Char) :
    start ++ [mark] <+: chars ++ mark :: tail ↔ chars = start ∨ start ++ [mark] <+: chars := by
  constructor
  · rintro ⟨rest, hrest⟩
    rcases List.append_eq_append_iff.mp hrest with ⟨more, hmore, -⟩ | ⟨more, hstart, hmore⟩
    · exact .inr ⟨more, hmore.symm⟩
    · cases more with
      | nil => exact .inr ⟨[], by simpa using hstart⟩
      | cons c between =>
          obtain ⟨rfl, hbetween⟩ := List.cons.inj hmore
          -- The mark behind `start` is the last of the whole text, so nothing stands between.
          rcases List.eq_nil_or_concat between with rfl | ⟨init, last, rfl⟩
          · exact .inl (List.append_cancel_right hstart).symm
          · have hends : start ++ [mark] = (chars ++ mark :: init) ++ [last] := by
              rw [hstart, List.concat_eq_append, List.append_assoc, List.cons_append]
            obtain rfl := List.singleton_inj.mp (List.append_inj_right' hends rfl)
            apply absurd _ htail
            rw [hbetween]
            simp
  · rintro (rfl | hprefix)
    · exact List.prefix_append_right_inj _ |>.mpr ⟨tail, rfl⟩
    · exact hprefix.trans (List.prefix_append _ _)

theorem isSome_dropPrefix?_iff (start chars : List Char) :
    (dropPrefix? start chars).isSome ↔ start <+: chars := by
  rw [Option.isSome_iff_exists]
  exact exists_congr fun rest => (dropPrefix?_eq_some_iff start chars rest).trans eq_comm

theorem isSome_dropPrefixIgnoringCase?_iff (start chars : List Char) :
    (dropPrefixIgnoringCase? start chars).isSome ↔
      start.map Char.toLower <+: chars.map Char.toLower := by
  simp only [Option.isSome_iff_exists, dropPrefixIgnoringCase?_eq_some_iff]
  constructor
  · rintro ⟨rest, head, hhead, rfl⟩
    rw [List.map_append, hhead]
    exact List.prefix_append _ _
  · rintro ⟨lowered, hlowered⟩
    obtain ⟨head, rest, rfl, hhead, -⟩ := List.map_eq_append_iff.mp hlowered.symm
    exact ⟨rest, head, hhead, rfl⟩

end Text

namespace Cell

/-! ## The key of one cell -/

/-- The characters of a key behind the last opening bracket. -/
def coordinates (y x : Int64) : List Char :=
  (Decimal.ofInt64 y).toList ++ ',' :: ((Decimal.ofInt64 x).toList ++ [']'])

theorem toList_keyStart (array : String) : (keyStart array).toList = array.toList ++ ['['] := by
  rw [keyStart, String.toList_append]
  rfl

theorem toList_key (array : String) (y x : Int64) :
    (key array y x).toList = array.toList ++ '[' :: coordinates y x := by
  simp [key, toList_keyStart, coordinates]

theorem mem_coordinates {y x : Int64} {c : Char} (hmem : c ∈ coordinates y x) :
    c ∈ ',' :: ']' :: Decimal.numerals := by
  simp only [coordinates, List.mem_append, List.mem_cons, List.not_mem_nil, or_false] at hmem
  rcases hmem with hmem | rfl | hmem | rfl
  · exact List.mem_cons_of_mem _ (List.mem_cons_of_mem _ (Decimal.mem_numerals hmem))
  · exact List.mem_cons_self
  · exact List.mem_cons_of_mem _ (List.mem_cons_of_mem _ (Decimal.mem_numerals hmem))
  · exact List.mem_cons_of_mem _ List.mem_cons_self

theorem bracket_notMem_coordinates (y x : Int64) : '[' ∉ coordinates y x :=
  fun hmem => absurd (mem_coordinates hmem) (by decide)

theorem map_toLower_coordinates (y x : Int64) :
    (coordinates y x).map Char.toLower = coordinates y x := by
  have hlower {c : Char} (hmem : c ∈ coordinates y x) : c.toLower = c := by
    rcases List.mem_cons.mp (mem_coordinates hmem) with rfl | hmem
    · decide
    rcases List.mem_cons.mp hmem with rfl | hmem
    · decide
    · exact Decimal.toLower_of_mem_numerals hmem
  rw [List.map_congr_left fun c => hlower, List.map_id']

theorem coordinates_injective {y x row column : Int64}
    (hsame : coordinates y x = coordinates row column) : y = row ∧ x = column := by
  have hcomma (number : Int64) : ',' ∉ (Decimal.ofInt64 number).toList :=
    fun hmem => absurd (Decimal.mem_numerals hmem) (by decide)
  have hlast : ',' ∉ (Decimal.ofInt64 x).toList ++ [']'] := by simp [hcomma x]
  obtain ⟨hy, -, hx⟩ := (List.append_cons_inj_of_notMem (hcomma y) hlast).mp hsame
  exact ⟨Decimal.ofInt64_injective (String.toList_inj.mp hy),
    Decimal.ofInt64_injective (String.toList_inj.mp (List.append_cancel_right hx))⟩

/-- Two cells have the same key only when they are the same cell. -/
theorem key_inj {array other : String} {y x row column : Int64} :
    key other row column = key array y x ↔ other = array ∧ row = y ∧ column = x := by
  constructor
  · intro hkey
    have hchars := congrArg String.toList hkey
    rw [toList_key, toList_key] at hchars
    have hprefix {first second : String} {row column y x : Int64}
        (hsame : first.toList ++ '[' :: coordinates row column =
          second.toList ++ '[' :: coordinates y x) :
        second.toList = first.toList ∨ first.toList ++ ['['] <+: second.toList := by
      rw [← Text.prefix_append_cons_iff (bracket_notMem_coordinates y x), ← hsame]
      exact ⟨coordinates row column, by simp⟩
    have harray : other = array := by
      rcases hprefix hchars with hsame | hshort
      · exact String.toList_inj.mp hsame.symm
      rcases hprefix hchars.symm with hsame | hlong
      · exact String.toList_inj.mp hsame
      -- Neither name can be the longer one.
      have hfirst := hshort.length_le
      have hsecond := hlong.length_le
      simp only [List.length_append, List.length_singleton] at hfirst hsecond
      omega
    subst harray
    have hcoordinates := (List.cons.inj (List.append_cancel_left hchars)).2
    exact ⟨rfl, coordinates_injective hcoordinates⟩
  · rintro ⟨rfl, rfl, rfl⟩
    rfl

/-! ## The scan for the cells of an array -/

/-- Whether the scan for the cells of an array finds the cells of another: when that is the array
itself, or its name begins with the array's and a bracket. For names that begin with `@` the case of
ASCII letters does not matter. -/
def Reaches (array other : String) : Prop :=
  if array.toList.head? = some '@' then
    Text.foldCase other = Text.foldCase array ∨
      (Text.foldCase (keyStart array)).toList <+: (Text.foldCase other).toList
  else
    other = array ∨ (keyStart array).toList <+: other.toList

instance (array other : String) : Decidable (Reaches array other) :=
  inferInstanceAs (Decidable (ite _ _ _))

theorem reaches_self (array : String) : Reaches array array := by
  unfold Reaches
  split
  · exact .inl rfl
  · exact .inl rfl

/-- Names without brackets are kept apart, unless the case of their letters does not matter. -/
theorem reaches_iff_eq {array other : String} (harray : array.toList.head? ≠ some '@')
    (hother : '[' ∉ other.toList) : Reaches array other ↔ other = array := by
  rw [Reaches, if_neg harray, toList_keyStart]
  apply or_iff_left
  intro hprefix
  apply hother
  apply hprefix.subset
  simp

theorem head?_keyStart (array : String) :
    (keyStart array).toList.head? = some '@' ↔ array.toList.head? = some '@' := by
  rw [toList_keyStart]
  cases array.toList with
  | nil => decide
  | cons c rest => rfl

theorem isSome_afterStart?_key_iff (array other : String) (y x : Int64) :
    (Store.afterStart? (keyStart array) (key other y x)).isSome ↔ Reaches array other := by
  unfold Store.afterStart? Reaches
  simp only [beq_iff_eq, head?_keyStart]
  split
  · have hbracket : '['.toLower = '[' := by decide
    simp only [Text.isSome_dropPrefixIgnoringCase?_iff, ← String.toList_inj, Text.foldCase,
      String.toList_map, toList_key, toList_keyStart, List.map_append, List.map_cons, List.map_nil,
      map_toLower_coordinates, hbracket]
    exact Text.prefix_append_cons_iff (bracket_notMem_coordinates y x) _ _
  · rw [Text.isSome_dropPrefix?_iff, toList_key, toList_keyStart,
      Text.prefix_append_cons_iff (bracket_notMem_coordinates y x), String.toList_inj]

end Cell

end AtScript
