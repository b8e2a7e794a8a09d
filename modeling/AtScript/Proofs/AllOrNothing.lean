import AtScript.Proofs.Context
import AtScript.Proofs.Judgement

/-! # Commands that happen completely or not at all

A command that runs no script first reads what it needs and then takes one step that cannot fail.
So where it fails, for the number of its arguments or for one of their values, it has changed
nothing: neither the store nor the queues, nor the generator, the depth or the output.
-/

namespace AtScript

variable {S α β : Type}

namespace Exec

/-! ## Looking first and changing last -/

/-- A computation that leaves the frame as it is, whether it succeeds or stops. -/
structure LooksOnly (action : Exec S α) : Prop where
  of_ok : ∀ {frame value after}, action frame = .ok value after → after = frame
  of_error : ∀ {frame stop after}, action frame = .error stop after → after = frame

/-- A computation that leaves the frame as it is where it stops. -/
structure AllOrNothing (action : Exec S α) : Prop where
  of_error : ∀ {frame stop after}, action frame = .error stop after → after = frame

namespace LooksOnly

theorem pure (value : α) : LooksOnly (S := S) (pure value) where
  of_ok hok := by
    cases hok
    rfl
  of_error := nofun

theorem throw (stop : Stop RunError) : LooksOnly (S := S) (α := α) (throw stop) where
  of_ok := nofun
  of_error herror := by
    cases herror
    rfl

theorem store : LooksOnly (S := S) store where
  of_ok hok := by
    cases hok
    rfl
  of_error := nofun

theorem ofValue (span : Span) (value : Except ValueError α) :
    LooksOnly (S := S) (ofValue span value) := by
  cases value with
  | ok value => exact .pure value
  | error error => exact .throw _

theorem ofFault (span : Span) (value : Except Fault α) :
    LooksOnly (S := S) (ofFault span value) := by
  cases value with
  | ok value => exact .pure value
  | error fault => exact .throw _

theorem bind {action : Exec S α} {next : α → Exec S β} (haction : LooksOnly action)
    (hnext : ∀ value, LooksOnly (next value)) : LooksOnly (action >>= next) where
  of_ok hok := by
    obtain ⟨value, middle, hfirst, hsecond⟩ := bind_eq_ok_iff.mp hok
    rw [(hnext value).of_ok hsecond, haction.of_ok hfirst]
  of_error herror := by
    rcases bind_eq_error_iff.mp herror with hfirst | ⟨value, middle, hfirst, hsecond⟩
    · exact haction.of_error hfirst
    · rw [(hnext value).of_error hsecond, haction.of_ok hfirst]

theorem allOrNothing {action : Exec S α} (haction : LooksOnly action) : AllOrNothing action :=
  ⟨haction.of_error⟩

end LooksOnly

namespace AllOrNothing

/-- What is only looked at before leaves no trace. -/
theorem after {action : Exec S α} {next : α → Exec S β} (haction : LooksOnly action)
    (hnext : ∀ value, AllOrNothing (next value)) : AllOrNothing (action >>= next) where
  of_error herror := by
    rcases bind_eq_error_iff.mp herror with hfirst | ⟨value, middle, hfirst, hsecond⟩
    · exact haction.of_error hfirst
    · rw [(hnext value).of_error hsecond, haction.of_ok hfirst]

/-- Giving a value at the end changes nothing. -/
theorem thenReturn {action : Exec S α} (haction : AllOrNothing action) (result : β) :
    AllOrNothing (action >>= fun _ => Pure.pure result) where
  of_error herror := by
    rcases bind_eq_error_iff.mp herror with hfirst | ⟨value, middle, hfirst, hsecond⟩
    · exact haction.of_error hfirst
    · cases hsecond

theorem elementary [Store S] {action : Exec S Unit} (haction : Elementary action) :
    AllOrNothing action where
  of_error {frame stop after} herror := by
    obtain ⟨final, hok, -⟩ := haction.apply_eq_ok frame frame.engine.options
    rw [hok] at herror
    cases herror

theorem done : AllOrNothing (S := S) (Pure.pure ()) :=
  (LooksOnly.pure ()).allOrNothing

theorem defect : AllOrNothing (S := S) (α := α) (throw .defect) :=
  (LooksOnly.throw .defect).allOrNothing

variable [Store S]

theorem write (text : String) : AllOrNothing (S := S) (write text) :=
  elementary (.write text)

theorem set (key value : String) :
    AllOrNothing (S := S) (mapStore fun store => Store.set store key value) :=
  elementary (.mapStore _ fun _ => .set .refl key value)

end AllOrNothing

end Exec

/-! ## Commands that run no script -/

namespace Primitive

open Exec

variable [Store S] (span : Span)

theorem items_looksOnly (name : String) : LooksOnly (S := S) (items span name) :=
  LooksOnly.store.bind fun _ => .ofValue span _

omit [Store S] in
theorem checkLength_looksOnly (length : Nat) : LooksOnly (S := S) (checkLength length) := by
  unfold checkLength
  split
  · exact .pure ()
  · exact .throw .tooLong

omit [Store S] in
theorem padTo_looksOnly (length : Nat) (texts : List String) :
    LooksOnly (S := S) (padTo length texts) :=
  (checkLength_looksOnly _).bind fun _ => .pure _

theorem saveItems_allOrNothing (name : String) (texts : List String) :
    AllOrNothing (S := S) (saveItems name texts) :=
  .set name (PackedList.encode texts)

/-- A list command that takes a position reads the list, then the position, and then acts. -/
theorem allOrNothing_at_position (name place : String)
    {next : List String → Nat → Exec S Unit}
    (hnext : ∀ texts index, AllOrNothing (next texts index)) :
    AllOrNothing (items span name >>= fun texts =>
      ofFault span (position place) >>= fun index => next texts index) := by
  refine .after (items_looksOnly span name) fun texts => ?_
  exact .after (.ofFault span _) fun index => hnext texts index

theorem onList_allOrNothing (command : ListCommand) (arguments : List String) :
    AllOrNothing (S := S) (onList span command arguments) := by
  unfold onList
  split
  next name => exact .set name ""
  next name value =>
    refine .after (items_looksOnly span name) fun texts => ?_
    exact .after (checkLength_looksOnly _) fun _ => saveItems_allOrNothing name _
  next name place => exact allOrNothing_at_position span name place fun texts index => .write _
  next name => exact .after (items_looksOnly span name) fun texts => .write _
  next name place value =>
    apply allOrNothing_at_position span name place
    intro texts index
    refine .after (padTo_looksOnly _ texts) fun padded => ?_
    split
    · exact saveItems_allOrNothing name _
    · exact .defect
  next name place value =>
    apply allOrNothing_at_position span name place
    intro texts index
    refine .after (padTo_looksOnly index texts) fun padded => ?_
    refine .after (checkLength_looksOnly _) fun _ => ?_
    split
    · exact saveItems_allOrNothing name _
    · exact .defect
  next name place =>
    apply allOrNothing_at_position span name place
    intro texts index
    split
    · exact saveItems_allOrNothing name _
    · exact .done
  next => exact .defect

omit [Store S] in
/-- An array command that takes a cell reads both coordinates and then acts. -/
theorem allOrNothing_at_cell (y x : String) {next : Int64 → Int64 → Exec S Unit}
    (hnext : ∀ row column, AllOrNothing (next row column)) :
    AllOrNothing (ofFault span (Function.integer y) >>= fun row =>
      ofFault span (Function.integer x) >>= fun column => next row column) := by
  refine .after (.ofFault span _) fun row => ?_
  exact .after (.ofFault span _) fun column => hnext row column

theorem onArray_allOrNothing (command : ArrayCommand) (arguments : List String) :
    AllOrNothing (S := S) (onArray span command arguments) := by
  unfold onArray
  split
  next name => exact .elementary (.mapStore _ (clearCells_writes name))
  next name y x =>
    apply allOrNothing_at_cell span y x
    exact fun row column => .after .store fun current => .write _
  next name y x value => exact allOrNothing_at_cell span y x fun row column => .set _ _
  next => exact .defect

theorem update_allOrNothing (operation : Arithmetic) (key operand : String) :
    AllOrNothing (S := S) (update span operation key operand) := by
  refine .after .store fun current => ?_
  refine .after (.ofValue span _) fun number => ?_
  refine .after (.ofFault span _) fun amount => ?_
  exact .after (.ofFault span _) fun result => .set _ _

/-- A command that runs no script happens completely or not at all. -/
theorem run_allOrNothing (keyword : Keyword) (arguments : List String) :
    AllOrNothing (S := S) (run span keyword arguments) := by
  unfold run
  split
  next => exact .done
  next => exact .set _ _
  next first second => exact .elementary (.mapStore _ (exchange_writes first second))
  next operation key operand => exact update_allOrNothing span operation key operand
  next => exact .write _
  next => exact .after .store fun current => .write _
  next => exact .write _
  next => exact .after .store fun current => .write _
  next => exact .after .store fun current => .write _
  next => exact .after (.ofFault span _) fun number => .elementary (.random number)
  next => exact .after (.ofFault span _) fun number => .elementary (.chance number)
  next => exact .elementary .receive
  next text => exact .elementary (.send text)
  next command => exact onList_allOrNothing span command _
  next command => exact onArray_allOrNothing span command _
  next => exact .after (.ofFault span _) fun text => .write text

end Primitive

/-! ## Calls -/

namespace Exec

theorem checkArity_looksOnly (command : Token) (arity : Arity) (found : Nat) :
    LooksOnly (S := S) (checkArity command arity found) := by
  unfold checkArity
  split
  · exact .pure ()
  · exact .throw _

variable [Store S]

/-- A keyword that neither runs a script nor shapes the flow of control does all that can fail
before it changes anything. -/
theorem perform_allOrNothing (run : Runner S) {keyword : Keyword}
    (hscript : keyword.runsScript = false) (command : Token) (values : List String) :
    AllOrNothing (do
      checkArity command keyword.arity values.length
      builtin run keyword command.span values) := by
  refine .after (checkArity_looksOnly command _ _) fun _ => ?_
  have hprimitive : builtin run keyword command.span values =
      Primitive.run command.span keyword values := by
    cases keyword <;> first | rfl | cases hscript
  rw [hprimitive]
  exact Primitive.run_allOrNothing command.span keyword values

/-- A keyword other than those of control flow and those that run a script changes nothing where it
fails. On any values, if there are too many or too few of them or if it cannot use them, the frame
after the failure is the frame before: the same store with its keys in the same order, the same
queues, generator, depth and output. A call of the keyword that fails once its arguments have been
evaluated leaves the frame as their evaluation left it. -/
theorem failing_keyword_changes_nothing (budget : Nat) (run : Runner S) {keyword : Keyword}
    (hcontrol : keyword.isControl = false) (hscript : keyword.runsScript = false)
    (command : Token) :
    (∀ values frame stop after,
      (do
        checkArity command keyword.arity values.length
        builtin run keyword command.span values : Exec S Unit) frame = .error stop after →
      after = frame) ∧
    (∀ rest frame values left middle stop after, command.role = .keyword keyword →
      arguments budget run command rest frame = .ok (values, left) middle →
      commandWith budget run (command :: rest) frame = .error stop after → after = middle) := by
  have hperform (values : List String) := perform_allOrNothing run hscript command values
  refine ⟨fun values frame stop after => (hperform values).of_error, ?_⟩
  intro rest frame values left middle stop after hrole harguments herror
  have hcall : commandWith budget run (command :: rest) frame =
      ((do
        checkArity command keyword.arity values.length
        builtin run keyword command.span values) >>= fun _ => Pure.pure left) middle := by
    rw [commandWith_ordinary budget run hrole hcontrol, builtinCall, bind_apply, harguments,
      bind_assoc]
  rw [hcall] at herror
  exact ((hperform values).thenReturn left).of_error herror

/-- The call `@setlist(l,-1,@getinchannel)` takes a text from the host and then fails for its
position; all it leaves behind is that the text is taken. -/
theorem failing_set_of_received_text :
    let command : Token := ⟨.call, "@setlist(", ⟨0, 9⟩⟩
    let rest : List Token :=
      [⟨.word, "l", ⟨9, 1⟩⟩, ⟨.comma, ",", ⟨10, 1⟩⟩, ⟨.word, "-1", ⟨11, 2⟩⟩,
        ⟨.comma, ",", ⟨13, 1⟩⟩, ⟨.word, "@getinchannel", ⟨14, 13⟩⟩, ⟨.close, ")", ⟨27, 1⟩⟩]
    let frame := (Frame.initial.write "out").withInbox ["a", "b"]
    (Keyword.list .set).isControl = false ∧ (Keyword.list .set).runsScript = false ∧
      command.role = .keyword (.list .set) ∧
      arguments 8 (Exec.command 1) command rest frame =
        .ok (["l", "-1", "a"], []) (frame.withInbox ["b"]) ∧
      ∃ after, commandWith 8 (Exec.command 1) (command :: rest) frame =
          .error (.failed (.atSpan (.negativeIndex (-1)) ⟨0, 9⟩)) after ∧
        after = frame.withInbox ["b"] := by
  intro command rest frame
  have hcontrol : (Keyword.list .set).isControl = false := rfl
  have hscript : (Keyword.list .set).runsScript = false := rfl
  have hrole : command.role = .keyword (.list .set) := by decide +kernel
  have harguments : arguments 8 (Exec.command 1) command rest frame =
      .ok (["l", "-1", "a"], []) (frame.withInbox ["b"]) := by with_unfolding_all rfl
  have hfails : ∃ after, commandWith 8 (Exec.command 1) (command :: rest) frame =
      .error (.failed (.atSpan (.negativeIndex (-1)) ⟨0, 9⟩)) after := by
    rw [commandWith_ordinary _ _ hrole hcontrol, builtinCall, bind_apply, harguments]
    exact ⟨_, by with_unfolding_all rfl⟩
  obtain ⟨after, hafter⟩ := hfails
  have hsame := (failing_keyword_changes_nothing 8 (Exec.command 1) hcontrol hscript command).2
    rest frame _ _ _ _ after hrole harguments hafter
  exact ⟨hcontrol, hscript, hrole, harguments, after, hafter, hsame⟩

end Exec

end AtScript
