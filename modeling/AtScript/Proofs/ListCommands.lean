import AtScript.Engine.Run
import AtScript.Proofs.Comparison
import AtScript.Proofs.PackedList
import AtScript.Proofs.StoreLaws
import AtScript.Store.Dictionary

/-! # List commands are operations on sequences

Every list command reads the packed list of a key, and most of them write it back. What they do is
what an operation on a plain sequence of texts does, up to the items that packing cannot keep and as
long as there can be a list of the length that the operation gives.
-/

namespace AtScript

/-- A list command with its arguments. -/
inductive ListStatement where
  | add (name value : String)
  | clear (name : String)
  | get (name place : String)
  | insertAt (name place value : String)
  | length (name : String)
  | removeAt (name place : String)
  | set (name place value : String)

namespace ListStatement

/-- The command of a statement. -/
def command : ListStatement → ListCommand
  | add _ _ => .add
  | clear _ => .clear
  | get _ _ => .get
  | insertAt _ _ _ => .insertAt
  | length _ => .length
  | removeAt _ _ => .removeAt
  | set _ _ _ => .set

/-- The arguments of a statement, as a script gives them. -/
def arguments : ListStatement → List String
  | add name value => [name, value]
  | clear name => [name]
  | get name place => [name, place]
  | insertAt name place value => [name, place, value]
  | length name => [name]
  | removeAt name place => [name, place]
  | set name place value => [name, place, value]

/-- The key that holds the list. -/
def name : ListStatement → String
  | add name _ | clear name | get name _ | insertAt name _ _ | length name | removeAt name _
  | set name _ _ => name

/-- What a statement does to a sequence. -/
inductive Effect where
  /-- The sequence is replaced by another one. -/
  | replace (items : List String)
  /-- The sequence would be longer than any list can be. -/
  | overflow
  /-- A text is written to the output. -/
  | write (text : String)
  | nothing

/-- The effect of making a sequence that may be longer than the one before. -/
def Effect.grow (items : List String) : Effect :=
  if items.length ≤ Primitive.maxLength then .replace items else .overflow

/-- The position that a text denotes. -/
def positionOf (place : String) : Except ErrorKind Nat :=
  match Value.toInt place with
  | .ok index => if index < 0 then .error (.negativeIndex index) else .ok index.toInt.toNat
  | .error error => .error (.value error)

/-- The effect of a statement on the sequence that its key holds. Sequences grow on demand: they are
padded with empty texts. -/
def effect (found : Except ValueError (List String)) : ListStatement → Except ErrorKind Effect
  | add _ value => do
    let items ← found.mapError .value
    return .grow (items ++ [value])
  | clear _ => return .replace []
  | get _ place => do
    let items ← found.mapError .value
    let index ← positionOf place
    return .write (items.getD index "")
  | insertAt _ place value => do
    let items ← found.mapError .value
    let index ← positionOf place
    return .grow ((items.rightpad index "").insertIdx index value)
  | length _ => do
    let items ← found.mapError .value
    return .write (toString items.length)
  | removeAt _ place => do
    let items ← found.mapError .value
    let index ← positionOf place
    return if index < items.length then .replace (items.eraseIdx index) else .nothing
  | set _ place value => do
    let items ← found.mapError .value
    let index ← positionOf place
    return .grow ((items.rightpad (index + 1) "").set index value)

end ListStatement

/-! ## Storing a list -/

namespace PackedList

/-- A packed list is never taken for the null text. -/
theorem sameIgnoringCase_encode (items : List String) :
    Text.sameIgnoringCase (encode items) Value.null = false := by
  rw [← Bool.not_eq_true, Text.sameIgnoringCase_iff]
  intro hfold
  have hchars := congrArg String.toList hfold
  rw [Text.foldCase, String.toList_map, toList_encode, List.map_cons] at hchars
  have hnull : (Text.foldCase Value.null).toList = ['n', 'u', 'l', 'l'] := by decide +kernel
  rw [hnull] at hchars
  exact absurd (List.cons.inj hchars).1 (by decide)

theorem isNull_encode (items : List String) : Value.isNull (encode items) = false := by
  have hempty : (encode items).isEmpty = false := by
    rw [← Bool.not_eq_true, String.isEmpty_iff, ← String.toList_eq_nil_iff, toList_encode]
    exact nofun
  rw [Value.isNull, trim_encode, hempty, sameIgnoringCase_encode]
  rfl

variable {S : Type} [Store S] [LawfulStore S]

theorem get_set_encode (store : S) (name : String) (items : List String) :
    Store.get (Store.set store name (encode items)) name = encode items := by
  rw [Store.get_set, isNull_encode, if_neg Bool.false_ne_true]

end PackedList

/-! ## Running a statement -/

namespace Exec

variable {S : Type} [Store S]

/-- A run that puts a sequence in place of the list of a key and changes nothing else. -/
def Replaces (result : EStateM.Result (Stop RunError) (Frame S) Unit) (frame : Frame S)
    (name : String) (items : List String) : Prop :=
  ∃ store, result = .ok () (frame.mapStore fun _ => store) ∧
    PackedList.decode (Store.get store name) = .ok (items.map PackedList.normalize) ∧
    ∀ key, key ≠ name → Store.get? store key = Store.get? frame.engine.store key

/-- A run that has a given effect on the list of a key, or stops without having changed anything. -/
inductive Performs (result : EStateM.Result (Stop RunError) (Frame S) Unit) (frame : Frame S)
    (span : Span) (name : String) : Except ErrorKind ListStatement.Effect → Prop
  | replace {items : List String} (hresult : Replaces result frame name items) :
      Performs result frame span name (.ok (.replace items))
  | overflow (hresult : result = .error .tooLong frame) :
      Performs result frame span name (.ok .overflow)
  | write {text : String} (hresult : result = .ok () (frame.write text)) :
      Performs result frame span name (.ok (.write text))
  | nothing (hresult : result = .ok () frame) : Performs result frame span name (.ok .nothing)
  | failure {kind : ErrorKind} (hresult : result = .error (.failed (.atSpan kind span)) frame) :
      Performs result frame span name (.error kind)

variable {frame : Frame S} {span : Span} {name : String}

/-- What is read before anything is changed may fail, and then nothing has been changed. -/
theorem performs_bind {α : Type} {reading : Exec S α} {found : Except ErrorKind α}
    (hreading : reading frame = ofFault span (found.mapError .failed) frame)
    {next : α → Exec S Unit} {effect : α → Except ErrorKind ListStatement.Effect}
    (hnext : ∀ value, Performs (next value frame) frame span name (effect value)) :
    Performs ((reading >>= next) frame) frame span name (found >>= effect) := by
  rw [bind_apply, hreading]
  cases found with
  | ok value => exact hnext value
  | error kind => exact .failure rfl

theorem performs_items {next : List String → Exec S Unit}
    {effect : List String → Except ErrorKind ListStatement.Effect}
    (hnext : ∀ items, Performs (next items frame) frame span name (effect items)) :
    Performs ((Primitive.items span name >>= next) frame) frame span name
      ((PackedList.decode (Store.get frame.engine.store name)).mapError .value >>= effect) := by
  refine performs_bind ?_ hnext
  have hstore : store frame = .ok frame.engine.store frame := rfl
  rw [Primitive.items, bind_apply, hstore]
  dsimp only
  cases PackedList.decode (Store.get frame.engine.store name) <;> rfl

theorem performs_position {place : String} {next : Nat → Exec S Unit}
    {effect : Nat → Except ErrorKind ListStatement.Effect}
    (hnext : ∀ index, Performs (next index frame) frame span name (effect index)) :
    Performs ((ofFault span (Primitive.position place) >>= next) frame) frame span name
      (ListStatement.positionOf place >>= effect) := by
  refine performs_bind ?_ hnext
  unfold ListStatement.positionOf Primitive.position Function.integer
  cases Value.toInt place with
  | error error => rfl
  | ok index =>
      dsimp only [bind, Except.bind]
      split <;> rfl

theorem performs_clear [LawfulStore S] :
    Performs (mapStore (fun store => Store.set store name "") frame) frame span name
      (.ok (.replace [])) := by
  refine .replace ⟨_, rfl, ?_, fun key hkey => Store.get?_set_of_ne _ hkey _⟩
  rw [Store.get_set, if_pos Value.isNull_empty]
  with_unfolding_all rfl

theorem builtin_list (run : Runner S) (span : Span) (command : ListCommand) (values : List String) :
    builtin run (.list command) span values = Primitive.onList span command values := by
  simp only [builtin, Primitive.run]

theorem performs_saveItems [LawfulStore S] (texts : List String) :
    Performs (Primitive.saveItems name texts frame) frame span name (.ok (.replace texts)) := by
  refine .replace ⟨_, rfl, ?_, fun key hkey => Store.get?_set_of_ne _ hkey _⟩
  rw [PackedList.get_set_encode, PackedList.decode_encode]

/-- A list of a length that is checked is saved, unless it is too long. -/
theorem performs_checkLength [LawfulStore S] {length : Nat} {texts : List String}
    (hlength : texts.length = length) :
    Performs ((Primitive.checkLength length >>= fun _ => Primitive.saveItems name texts) frame)
      frame span name (.ok (.grow texts)) := by
  rw [ListStatement.Effect.grow, Primitive.checkLength, hlength]
  split
  · exact performs_saveItems texts
  · exact .overflow rfl

omit [Store S] in
/-- Of two lists, only the longer one needs to be checked. -/
theorem checkLength_bind_checkLength {α : Type} {length longer : Nat} (hle : length ≤ longer)
    (next : Unit → Exec S α) :
    (Primitive.checkLength length >>= fun _ => Primitive.checkLength longer >>= next) =
      Primitive.checkLength longer >>= next := by
  by_cases hlonger : longer ≤ Primitive.maxLength
  · rw [Primitive.checkLength, if_pos (hle.trans hlonger)]
    rfl
  · rw [Primitive.checkLength, Primitive.checkLength, if_neg hlonger]
    split <;> rfl

/-- Every list statement does to the list of its key what the operation on sequences says: it
replaces the list, up to the items that packing cannot keep, or writes a text, or does nothing. No
other key changes. A list that cannot be read and a position that is no number or negative make it
fail, and then nothing has changed. Nothing has changed either where the list would become longer
than any list can be: the run is given up. -/
theorem list_statement_performs_effect [LawfulStore S] (run : Runner S) (span : Span)
    (statement : ListStatement) (frame : Frame S) :
    Performs (builtin run (.list statement.command) span statement.arguments frame) frame span
      statement.name
      (statement.effect (PackedList.decode (Store.get frame.engine.store statement.name))) := by
  rw [builtin_list]
  unfold ListStatement.effect Primitive.onList
  cases statement with
  | add name value =>
      exact performs_items fun items => performs_checkLength List.length_append
  | clear name => exact performs_clear
  | get name place =>
      refine performs_items fun items => ?_
      exact performs_position fun index => .write rfl
  | insertAt name place value =>
      refine performs_items fun items => ?_
      refine performs_position fun index => ?_
      have hindex := Primitive.le_length_rightpad index items
      rw [Primitive.padTo_bind, checkLength_bind_checkLength (Nat.le_succ _)]
      simp only [hindex, if_true]
      exact performs_checkLength (List.length_insertIdx_of_le_length hindex value)
  | length name => exact performs_items fun items => .write rfl
  | removeAt name place =>
      refine performs_items fun items => ?_
      refine performs_position fun index => ?_
      by_cases hindex : index < items.length
      · simp only [hindex, if_true]
        exact performs_saveItems _
      · simp only [hindex, if_false]
        exact .nothing rfl
  | set name place value =>
      refine performs_items fun items => ?_
      refine performs_position fun index => ?_
      have hindex : index < (items.rightpad (index + 1) "").length :=
        Primitive.le_length_rightpad (index + 1) items
      rw [Primitive.padTo_bind]
      simp only [hindex, if_true]
      exact performs_checkLength List.length_set

/-- On a new engine, the largest position that can be written makes no list: a list with so many
items is longer than any list can be. -/
theorem set_at_largest_position :
    let engine := Engine.new Dictionary.empty {}
    let result := builtin (fun _ => throw .outOfFuel) (.list .set) ⟨0, 9⟩
      ["l", "9223372036854775807", "x"] ⟨engine, ""⟩
    PackedList.decode (Store.get engine.store "l") = .ok [] ∧
      ListStatement.positionOf "9223372036854775807" = .ok 9223372036854775807 ∧
      result = .error .tooLong ⟨engine, ""⟩ ∧
      ¬ Replaces result ⟨engine, ""⟩ "l"
        ((([] : List String).rightpad 9223372036854775808 "").set 9223372036854775807 "x") ∧
      (engine.runWithin 9 "@setlist(l,9223372036854775807,x)").result = .error .tooLong := by
  intro engine result
  have hresult : result = .error .tooLong ⟨engine, ""⟩ := by with_unfolding_all rfl
  refine ⟨by with_unfolding_all rfl, by with_unfolding_all rfl, hresult, ?_, by decide +kernel⟩
  rintro ⟨store, hok, -⟩
  rw [hresult] at hok
  cases hok

/-- An engine whose key `l` holds the list of `a` and `b c`. -/
def sampleListFrame : Frame Dictionary :=
  ⟨.new (Store.insert Dictionary.empty "l" "[a, \"b c\"]") {}, ""⟩

/-- The list grows up to the position of the new item, whose comma is kept. -/
theorem insertAt_sampleListFrame :
    Replaces (builtin (fun _ => throw .outOfFuel) (.list .insertAt) ⟨0, 13⟩ ["l", "3", "x,y"]
      sampleListFrame) sampleListFrame "l" ["a", "b c", "", "x,y"] := by
  have hfound : PackedList.decode (Store.get sampleListFrame.engine.store "l") =
      .ok ["a", "b c"] := by with_unfolding_all rfl
  have heffect : (ListStatement.insertAt "l" "3" "x,y").effect (.ok ["a", "b c"]) =
      .ok (.replace ["a", "b c", "", "x,y"]) := by with_unfolding_all rfl
  have hperforms := list_statement_performs_effect (fun _ => throw .outOfFuel) ⟨0, 13⟩
    (.insertAt "l" "3" "x,y") sampleListFrame
  rw [ListStatement.name, hfound, heffect] at hperforms
  cases hperforms with
  | replace hresult => exact hresult

end Exec

end AtScript
