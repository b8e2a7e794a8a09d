import AtScript.Engine.Call
import AtScript.Proofs.CellKeys
import AtScript.Proofs.Comparison
import AtScript.Proofs.Items
import AtScript.Store.Dictionary

/-! # Array commands

The cells of arrays are a mapping from names and coordinates to texts. Writing a cell changes that
cell alone. Clearing an array clears all its cells, and with them those of every array that the scan
for its cells reaches.
-/

namespace AtScript

namespace Primitive

/-! ## Clearing keys -/

variable {S : Type} [Store S] [LawfulStore S]

/-- A list of keys is cleared, and no other key changes. -/
theorem get_clear_keys (names : List String) (store : S) (key : String) :
    Store.get (names.foldl (fun rest name => Store.set rest name "") store) key =
      if key ∈ names then "" else Store.get store key := by
  rw [Store.get, Store.get?_clear_keys]
  by_cases hkey : key ∈ names
  · simp only [hkey, if_true, Value.sameIgnoringCase_null]
  · simp only [hkey, if_false, Store.get]

theorem mem_keys_clear_keys (names : List String) (store : S) (key : String) :
    key ∈ Store.keys (names.foldl (fun rest name => Store.set rest name "") store) ↔
      key ∈ names ∨ key ∈ Store.keys store := by
  rw [LawfulStore.mem_keys, LawfulStore.mem_keys, Store.get?_clear_keys]
  split
  next hkey => simp [hkey]
  next hkey => simp [hkey]

/-- Clearing an array empties each key that the scan for its cells finds. Keys that were never
written are empty anyway. -/
theorem get_clearCells (array : String) (store : S) (key : String) :
    Store.get (clearCells array store) key =
      if (Store.afterStart? (Cell.keyStart array) key).isSome then "" else Store.get store key := by
  rw [clearCells, get_clear_keys]
  simp only [Store.mem_entriesFrom_iff]
  by_cases hkey : key ∈ Store.keys store
  · simp only [hkey, true_and]
  · have hnone : Store.get? store key = none := by
      rwa [LawfulStore.mem_keys, Option.not_isSome_iff_eq_none] at hkey
    simp [hkey, Store.get, hnone]

theorem mem_keys_clearCells (array : String) (store : S) (key : String) :
    key ∈ Store.keys (clearCells array store) ↔ key ∈ Store.keys store := by
  rw [clearCells, mem_keys_clear_keys, Store.mem_entriesFrom_iff]
  exact or_iff_right_of_imp And.left

end Primitive

/-! ## What cells hold -/

namespace Cell

variable {S : Type} [Store S] [LawfulStore S]

/-- The text of a cell after another one, or the same, was written. -/
theorem unpackItem_get_set (store : S) (array other value : String) (row column y x : Int64) :
    Value.unpackItem (Store.get
        (Store.set store (key array row column) (Value.packItem value)) (key other y x)) =
      if other = array ∧ y = row ∧ x = column then Value.kept value
      else Value.unpackItem (Store.get store (key other y x)) := by
  split
  next hsame => rw [key_inj.mpr hsame, Value.unpackItem_get_set]
  next hother => rw [Store.get_set_of_ne store (mt key_inj.mp hother)]

/-- The text of a cell after an array was cleared. -/
theorem unpackItem_get_clearCells (store : S) (array other : String) (y x : Int64) :
    Value.unpackItem (Store.get (Primitive.clearCells array store) (key other y x)) =
      if Reaches array other then "" else Value.unpackItem (Store.get store (key other y x)) := by
  simp only [Primitive.get_clearCells, isSome_afterStart?_key_iff]
  split
  · exact Value.unpackItem_empty
  · rfl

end Cell

namespace Exec

/-! ## Running a command -/

variable {S : Type}

/-- A coordinate is the integer that its argument writes, however it writes it. -/
theorem ofFault_integer {text : String} {number : Int64} (htext : Value.toInt text = .ok number)
    (span : Span) : (ofFault span (Function.integer text) : Exec S Int64) = pure number := by
  unfold Function.integer
  rw [htext]
  rfl

variable [Store S]

/-- A run that writes the text of a cell and changes nothing. -/
def Reads (run : Runner S) (span : Span) (frame : Frame S) (array y x text : String) : Prop :=
  builtin run (.array .get) span [array, y, x] frame = .ok () (frame.write text)

/-- What a cell reads as is one text. -/
theorem Reads.unique {run : Runner S} {span : Span} {frame : Frame S}
    {array y x first second : String} (hfirst : Reads run span frame array y x first)
    (hsecond : Reads run span frame array y x second) : first = second := by
  unfold Reads at hfirst hsecond
  rw [hfirst] at hsecond
  obtain ⟨-, hframe⟩ := EStateM.Result.ok.inj hsecond
  have hout := congrArg String.toList (congrArg Frame.out hframe)
  dsimp only [Frame.write] at hout
  rw [String.toList_append, String.toList_append] at hout
  exact String.toList_inj.mp (List.append_cancel_left hout)

theorem builtin_array (run : Runner S) (span : Span) (command : ArrayCommand)
    (values : List String) :
    builtin run (.array command) span values = Primitive.onArray span command values := by
  simp only [builtin, Primitive.run]

theorem reads_cell {y x : String} {row column : Int64} (hy : Value.toInt y = .ok row)
    (hx : Value.toInt x = .ok column) (run : Runner S) (span : Span) {frame : Frame S}
    {array text : String}
    (htext : Value.unpackItem (Store.get frame.engine.store (Cell.key array row column)) = text) :
    Reads run span frame array y x text := by
  unfold Reads
  rw [builtin_array, ← htext]
  unfold Primitive.onArray
  dsimp only
  rw [ofFault_integer hy, ofFault_integer hx]
  rfl

theorem builtin_set_cell {y x : String} {row column : Int64} (hy : Value.toInt y = .ok row)
    (hx : Value.toInt x = .ok column) (run : Runner S) (span : Span) (frame : Frame S)
    (array value : String) :
    builtin run (.array .set) span [array, y, x, value] frame =
      .ok () (frame.mapStore fun _ =>
        Store.set frame.engine.store (Cell.key array row column) (Value.packItem value)) := by
  rw [builtin_array]
  unfold Primitive.onArray
  dsimp only
  rw [ofFault_integer hy, ofFault_integer hx]
  rfl

theorem builtin_clear_array (run : Runner S) (span : Span) (frame : Frame S) (array : String) :
    builtin run (.array .clear) span [array] frame =
      .ok () (frame.mapStore fun _ => Primitive.clearCells array frame.engine.store) := by
  rw [builtin_array]
  rfl

/-- Cells are a mapping. A written cell reads as its text, up to what an item cannot keep, and all
other cells of all arrays read as before. Only the integers that the coordinates write matter, and
every integer can be written. -/
theorem set_cell_changes_one_cell [LawfulStore S] (run : Runner S) (span : Span) (frame : Frame S)
    (array value : String) {y x : String} {row column : Int64} (hy : Value.toInt y = .ok row)
    (hx : Value.toInt x = .ok column) :
    (∃ store, builtin run (.array .set) span [array, y, x, value] frame =
        .ok () (frame.mapStore fun _ => store) ∧
      ∀ (other y' x' : String) (row' column' : Int64),
        Value.toInt y' = .ok row' → Value.toInt x' = .ok column' →
        ∃ before, Reads run span frame other y' x' before ∧
          Reads run span (frame.mapStore fun _ => store) other y' x'
            (if other = array ∧ row' = row ∧ column' = column then Value.kept value else before)) ∧
    ∀ number : Int64, Value.toInt (Decimal.ofInt64 number) = .ok number := by
  refine ⟨⟨_, builtin_set_cell hy hx run span frame array value, ?_⟩, Value.toInt_ofInt64⟩
  intro other y' x' row' column' hy' hx'
  refine ⟨_, reads_cell hy' hx' run span rfl, ?_⟩
  apply reads_cell hy' hx'
  exact Cell.unpackItem_get_set frame.engine.store array other value row column row' column'

/-- An engine with cells in an array with capital letters and in one with a bracket in its name. -/
def sampleArrayFrame : Frame Dictionary :=
  ⟨.new (Store.insert (Store.insert Dictionary.empty "@A[0,0]" "x") "@a[[0,0]" "y\\n") {}, ""⟩

/-- A name with brackets and coordinates in unusual spellings. -/
theorem set_cell_in_sampleArrayFrame :
    let run : Runner Dictionary := fun _ => throw .outOfFuel
    Value.toInt " +07" = .ok 7 ∧ Value.toInt "" = .ok 0 ∧
      ∃ store, builtin run (.array .set) ⟨0, 9⟩ ["@a[", " +07", "", "1,\r\n\\x2C"]
          sampleArrayFrame = .ok () (sampleArrayFrame.mapStore fun _ => store) ∧
        Reads run ⟨0, 9⟩ (sampleArrayFrame.mapStore fun _ => store) "@a[" "7" "0" "1,\n," ∧
        Reads run ⟨0, 9⟩ (sampleArrayFrame.mapStore fun _ => store) "@a[" "0" "0" "y\n" := by
  intro run
  have hy : Value.toInt " +07" = .ok 7 := by with_unfolding_all rfl
  have hx : Value.toInt "" = .ok 0 := by with_unfolding_all rfl
  have hseven : Value.toInt "7" = .ok 7 := by with_unfolding_all rfl
  have hzero : Value.toInt "0" = .ok 0 := by with_unfolding_all rfl
  obtain ⟨⟨store, hset, hreads⟩, -⟩ := set_cell_changes_one_cell run ⟨0, 9⟩ sampleArrayFrame
    "@a[" "1,\r\n\\x2C" hy hx
  refine ⟨hy, hx, store, hset, ?_, ?_⟩
  · obtain ⟨_, _, hafter⟩ := hreads "@a[" "7" "0" 7 0 hseven hzero
    have hkept : Value.kept "1,\r\n\\x2C" = "1,\n," := by decide +kernel
    rwa [if_pos ⟨rfl, rfl, rfl⟩, hkept] at hafter
  · obtain ⟨before, hbefore, hafter⟩ := hreads "@a[" "0" "0" 0 0 hzero hzero
    have hread : Reads run ⟨0, 9⟩ sampleArrayFrame "@a[" "0" "0" "y\n" :=
      reads_cell hzero hzero run ⟨0, 9⟩ (by decide +kernel)
    rwa [if_neg (by decide), hbefore.unique hread] at hafter

/-- Clearing an array makes all its cells read as empty, adds no key and removes none. It does the
same to every array that the scan for its cells reaches, and no other cell changes. Among arrays
without brackets in their names it reaches only the one that is meant, unless that begins with
`@`. -/
theorem clear_array_empties_reached_arrays [LawfulStore S] (run : Runner S) (span : Span)
    (frame : Frame S) (array : String) :
    (∃ store, builtin run (.array .clear) span [array] frame =
        .ok () (frame.mapStore fun _ => store) ∧
      (∀ key, key ∈ Store.keys store ↔ key ∈ Store.keys frame.engine.store) ∧
      ∀ (other y x : String) (row column : Int64),
        Value.toInt y = .ok row → Value.toInt x = .ok column →
        ∃ before, Reads run span frame other y x before ∧
          Reads run span (frame.mapStore fun _ => store) other y x
            (if Cell.Reaches array other then "" else before)) ∧
    Cell.Reaches array array ∧
    ∀ other : String, array.toList.head? ≠ some '@' → '[' ∉ other.toList →
      (Cell.Reaches array other ↔ other = array) := by
  refine ⟨⟨_, builtin_clear_array run span frame array,
    Primitive.mem_keys_clearCells array frame.engine.store, ?_⟩, Cell.reaches_self array,
    fun other harray hother => Cell.reaches_iff_eq harray hother⟩
  intro other y x row column hy hx
  refine ⟨_, reads_cell hy hx run span rfl, ?_⟩
  apply reads_cell hy hx
  exact Cell.unpackItem_get_clearCells frame.engine.store array other row column

/-- Clearing an array also clears the one whose name has other capital letters. -/
theorem clear_array_in_sampleArrayFrame :
    let run : Runner Dictionary := fun _ => throw .outOfFuel
    ∃ store, builtin run (.array .clear) ⟨0, 9⟩ ["@a"] sampleArrayFrame =
        .ok () (sampleArrayFrame.mapStore fun _ => store) ∧
      Reads run ⟨0, 9⟩ sampleArrayFrame "@A" "0" "0" "x" ∧
      Reads run ⟨0, 9⟩ (sampleArrayFrame.mapStore fun _ => store) "@A" "0" "0" "" := by
  intro run
  have hzero : Value.toInt "0" = .ok 0 := by with_unfolding_all rfl
  obtain ⟨⟨store, hclear, -, hreads⟩, -⟩ :=
    clear_array_empties_reached_arrays run ⟨0, 9⟩ sampleArrayFrame "@a"
  obtain ⟨before, hbefore, hafter⟩ := hreads "@A" "0" "0" 0 0 hzero hzero
  have hread : Reads run ⟨0, 9⟩ sampleArrayFrame "@A" "0" "0" "x" :=
    reads_cell hzero hzero run ⟨0, 9⟩ (by decide +kernel)
  have hreached : Cell.Reaches "@a" "@A" := by
    rw [Cell.Reaches, if_pos (by decide)]
    apply Or.inl
    apply String.toList_inj.mp
    rw [Text.foldCase, Text.foldCase, String.toList_map, String.toList_map]
    decide
  rw [if_pos hreached] at hafter
  exact ⟨store, hclear, hread, hafter⟩

/-- Clearing an array also clears the one whose name is longer by a bracket. -/
theorem clear_array_reaches_bracketed_name :
    let run : Runner Dictionary := fun _ => throw .outOfFuel
    let frame : Frame Dictionary := ⟨.new (Store.insert Dictionary.empty "a[[0,0]" "x") {}, ""⟩
    ∃ after, builtin run (.array .clear) ⟨0, 9⟩ ["a"] frame = .ok () after ∧ "a[" ≠ "a" ∧
      Reads run ⟨0, 9⟩ frame "a[" "0" "0" "x" ∧ Reads run ⟨0, 9⟩ after "a[" "0" "0" "" := by
  intro run frame
  have hzero : Value.toInt "0" = .ok 0 := by with_unfolding_all rfl
  refine ⟨_, builtin_clear_array run ⟨0, 9⟩ frame "a", by decide, ?_, ?_⟩
  · exact reads_cell hzero hzero run ⟨0, 9⟩ (by decide +kernel)
  · exact reads_cell hzero hzero run ⟨0, 9⟩ (by decide +kernel)

end Exec

end AtScript
