import Mathlib.Data.List.Basic
import AtScript.Proofs.Comparison
import AtScript.Proofs.Writes

/-! # Judgements on commands

A judgement says something of a computation and of the value that it gives. Where it holds of the
steps that cannot fail and is handed on from the parts of a computation to the whole, it holds of
every command. Commands are taken apart here once; what is proved of all commands elsewhere is a
judgement and its rules.
-/

namespace AtScript

/-- Whether an error says that scripts are nested too deeply. -/
def ErrorKind.isTooDeep : ErrorKind → Bool
  | .tooDeep _ => true
  | _ => false

/-! ## Arguments that a keyword accepts -/

namespace Arity

theorem eq_of_accepts_exactly {count found : Nat}
    (haccepts : (exactly count).accepts found = true) : found = count := by
  obtain ⟨hleast, hmost⟩ := Bool.and_eq_true_iff.mp haccepts
  exact Nat.le_antisymm (of_decide_eq_true hmost) (of_decide_eq_true hleast)

variable {arguments : List String}

theorem one_argument (haccepts : (exactly 1).accepts arguments.length = true) :
    ∃ first, arguments = [first] :=
  List.length_eq_one_iff.mp (eq_of_accepts_exactly haccepts)

theorem two_arguments (haccepts : (exactly 2).accepts arguments.length = true) :
    ∃ first second, arguments = [first, second] :=
  List.length_eq_two.mp (eq_of_accepts_exactly haccepts)

theorem three_arguments (haccepts : (exactly 3).accepts arguments.length = true) :
    ∃ first second third, arguments = [first, second, third] :=
  List.length_eq_three.mp (eq_of_accepts_exactly haccepts)

theorem four_arguments (haccepts : (exactly 4).accepts arguments.length = true) :
    ∃ first second third fourth, arguments = [first, second, third, fourth] := by
  have hlength := eq_of_accepts_exactly haccepts
  match arguments, hlength with
  | [first, second, third, fourth], _ => exact ⟨first, second, third, fourth, rfl⟩

theorem two_or_three_arguments (haccepts : (between 2 3).accepts arguments.length = true) :
    (∃ first second, arguments = [first, second]) ∨
      ∃ first second third, arguments = [first, second, third] := by
  obtain ⟨hleast, hmost⟩ := Bool.and_eq_true_iff.mp haccepts
  rcases Nat.lt_or_eq_of_le (of_decide_eq_true hmost) with hlt | heq
  · have hlength := Nat.le_antisymm (Nat.le_of_lt_succ hlt) (of_decide_eq_true hleast)
    exact .inl (List.length_eq_two.mp hlength)
  · exact .inr (List.length_eq_three.mp heq)

theorem le_of_accepts_atLeast {count found : Nat}
    (haccepts : (atLeast count).accepts found = true) : count ≤ found :=
  of_decide_eq_true (Bool.and_eq_true_iff.mp haccepts).1

end Arity

namespace Keyword

theorem arity_update (operation : Arithmetic) : (update operation).arity = .exactly 2 := by
  cases operation <;> rfl

theorem arity_arithmetic (operation : Arithmetic) : (arithmetic operation).arity = .exactly 2 := by
  cases operation <;> rfl

theorem arity_compare (comparison : Comparison) : (compare comparison).arity = .exactly 2 := by
  cases comparison <;> rfl

theorem arity_ask (question : Question) : (ask question).arity = .exactly 1 := by
  cases question <;> rfl

theorem arity_askStored (question : Question) : (askStored question).arity = .exactly 1 := by
  cases question <;> rfl

/-- Whether a keyword runs a script that it is given or that is stored. -/
def runsScript : Keyword → Bool
  | .exec | .script | .getValue => true
  | _ => false

end Keyword

/-! ## Steps that cannot fail -/

variable {S : Type}

theorem Primitive.random_apply (limit : Int64) (frame : Frame S) :
    random limit frame =
      .ok () ((frame.withGenerator (Random.integerBelow limit frame.engine.generator).2).write
        (Decimal.ofInt64 (Random.integerBelow limit frame.engine.generator).1)) := by
  have hget : (get : Exec S (Frame S)) frame = .ok frame frame := rfl
  rw [random, Exec.bind_apply, hget]
  dsimp only
  -- What is drawn must not be computed.
  generalize Random.integerBelow limit frame.engine.generator = drawn
  rfl

theorem Primitive.chance_apply (percent : Int64) (frame : Frame S) :
    chance percent frame =
      .ok () ((frame.withGenerator (Random.event percent frame.engine.generator).2).write
        (Value.ofBool (Random.event percent frame.engine.generator).1)) := by
  have hget : (get : Exec S (Frame S)) frame = .ok frame frame := rfl
  rw [chance, Exec.bind_apply, hget]
  dsimp only
  generalize Random.event percent frame.engine.generator = drawn
  rfl

namespace Frame

/-- A frame whose engine has other options. -/
def withOptions (frame : Frame S) (options : Options) : Frame S :=
  { frame with engine := { frame.engine with options := options } }

/-- A frame in which another number of scripts is running. -/
def atDepth (frame : Frame S) (depth : Nat) : Frame S :=
  { frame with engine := { frame.engine with depth := depth } }

theorem leave?_of_depth {frame : Frame S} {depth : Nat} (hdepth : frame.engine.depth = depth + 1) :
    frame.leave? = some (frame.atDepth depth) := by
  simp only [leave?, hdepth, atDepth]

theorem exceededLimit?_eq_some_iff {frame : Frame S} {limit : Nat} :
    frame.exceededLimit? = some limit ↔
      frame.engine.options.maxDepth = some limit ∧ limit < frame.engine.depth := by
  simp [exceededLimit?, Option.filter_eq_some_iff]

/-- Under a limit, a script may be entered as long as no more scripts than that are running. -/
theorem exceededLimit?_eq_none_iff {frame : Frame S} :
    frame.exceededLimit? = none ↔
      ∀ limit, frame.engine.options.maxDepth = some limit → frame.engine.depth ≤ limit := by
  simp [exceededLimit?, Option.filter_eq_none_iff]

/-- Two frames with the same options in which equally many scripts are running. -/
structure SameLevel (frame after : Frame S) : Prop where
  options : after.engine.options = frame.engine.options
  depth : after.engine.depth = frame.engine.depth

namespace SameLevel

variable {frame middle after : Frame S}

theorem refl (frame : Frame S) : frame.SameLevel frame := ⟨rfl, rfl⟩

theorem trans (hfirst : frame.SameLevel middle) (hsecond : middle.SameLevel after) :
    frame.SameLevel after :=
  ⟨hsecond.options.trans hfirst.options, hsecond.depth.trans hfirst.depth⟩

/-- A script that is left at the level it was entered leads back to where it was called. -/
theorem atDepth (hlevel : frame.enter.SameLevel after) :
    frame.SameLevel (after.atDepth frame.engine.depth) :=
  ⟨hlevel.options, rfl⟩

end SameLevel

end Frame

namespace Exec

/-- The steps that change a frame and cannot fail. A store is changed by writing values. -/
inductive Elementary [Store S] : Exec S Unit → Prop
  | write (text : String) : Elementary (write text)
  | mapStore (change : S → S) (hchange : ∀ store, Store.Writes store (change store)) :
      Elementary (mapStore change)
  | random (limit : Int64) : Elementary (Primitive.random limit)
  | chance (percent : Int64) : Elementary (Primitive.chance percent)
  | receive : Elementary Primitive.receive
  | send (text : String) : Elementary (modify (·.send text))

/-- An elementary step stays at its level and does the same under other options. -/
theorem Elementary.apply_eq_ok [Store S] {action : Exec S Unit} (haction : Elementary action)
    (frame : Frame S) (options : Options) :
    ∃ after, action frame = .ok () after ∧ frame.SameLevel after ∧
      action (frame.withOptions options) = .ok () (after.withOptions options) := by
  cases haction with
  | write text => exact ⟨_, rfl, ⟨rfl, rfl⟩, rfl⟩
  | mapStore change hchange => exact ⟨_, rfl, ⟨rfl, rfl⟩, rfl⟩
  | send text => exact ⟨_, rfl, ⟨rfl, rfl⟩, rfl⟩
  | random limit =>
      exact ⟨_, Primitive.random_apply limit frame, ⟨rfl, rfl⟩,
        Primitive.random_apply limit (frame.withOptions options)⟩
  | chance percent =>
      exact ⟨_, Primitive.chance_apply percent frame, ⟨rfl, rfl⟩,
        Primitive.chance_apply percent (frame.withOptions options)⟩
  | receive =>
      obtain ⟨⟨store, inbox, sent, current, generator, depth⟩, out⟩ := frame
      cases inbox with
      | nil => exact ⟨_, rfl, ⟨rfl, rfl⟩, rfl⟩
      | cons text rest => exact ⟨_, rfl, ⟨rfl, rfl⟩, rfl⟩

variable {run : Runner S} {script : String} {frame after : Frame S}

/-- A script that is entered succeeds as its tokens do. -/
theorem nested_ok_of_sameLevel (hlimit : frame.exceededLimit? = none)
    (hscript : sequenceAll run (Token.scan script) frame.enter = .ok () after)
    (hlevel : frame.enter.SameLevel after) :
    nested run script frame = .ok () (after.atDepth frame.engine.depth) := by
  rw [nested_of_ok hlimit hscript, Frame.leave?_of_depth hlevel.depth]

/-- A script that is entered stops as its tokens do. -/
theorem nested_error_of_sameLevel {stop : Stop RunError} (hlimit : frame.exceededLimit? = none)
    (hscript : sequenceAll run (Token.scan script) frame.enter = .error stop after)
    (hlevel : frame.enter.SameLevel after) :
    nested run script frame =
      .error (stop.map (·.inScript script)) (after.atDepth frame.engine.depth) := by
  rw [nested_of_error hlimit hscript, Frame.leave?_of_depth hlevel.depth]

end Exec

/-! ## Rules -/

open Exec in
/-- A property of computations and of their values, with the rules by which composed computations
have it. Failures are covered where they stand at one of the given places. -/
structure Judgement (S : Type) [Store S] (places : Span → Prop) where
  holds : {α : Type} → (α → Prop) → Exec S α → Prop
  pure : ∀ {α : Type} {result : α → Prop} {value : α}, result value → holds result (pure value)
  bind : ∀ {α β : Type} {between : α → Prop} {result : β → Prop} {action : Exec S α}
    {next : α → Exec S β}, holds between action →
      (∀ value, between value → holds result (next value)) → holds result (action >>= next)
  fail : ∀ {α : Type} {result : α → Prop} {kind : ErrorKind} {span : Span}, places span →
    kind.isTooDeep = false → holds result (fail kind span)
  /-- A run may be given up for a list that is too long. -/
  tooLong : ∀ {α : Type} {result : α → Prop}, holds result (throw .tooLong)
  elementary : ∀ {action : Exec S Unit}, Elementary action → holds (fun _ => True) action
  store : holds (fun _ => True) store
  /-- A command inside another one writes for itself. -/
  capture : ∀ {α : Type} {result : α → Prop} {action : Exec S α}, holds result action →
    holds (fun value => result value.1) (capture action)

namespace Judgement

open Exec

variable {α β : Type} [Store S] {places : Span → Prop} (judgement : Judgement S places)

/-- As `bind`, where nothing is known of the value. -/
theorem andThen {result : β → Prop} {action : Exec S α} {next : α → Exec S β}
    (haction : judgement.holds (fun _ => True) action)
    (hnext : ∀ value, judgement.holds result (next value)) :
    judgement.holds result (action >>= next) :=
  judgement.bind haction fun value _ => hnext value

theorem done : judgement.holds (fun _ => True) (Pure.pure () : Exec S Unit) :=
  judgement.pure trivial

theorem write (text : String) : judgement.holds (fun _ => True) (write text) :=
  judgement.elementary (.write text)

theorem mapStore {change : S → S} (hchange : ∀ store, Store.Writes store (change store)) :
    judgement.holds (fun _ => True) (mapStore change) :=
  judgement.elementary (.mapStore change hchange)

theorem set (key value : String) :
    judgement.holds (fun _ => True) (Exec.mapStore fun store => Store.set store key value) :=
  judgement.mapStore fun _ => .set .refl key value

theorem ofValue {span : Span} (hspan : places span) (value : Except ValueError α) :
    judgement.holds (fun _ => True) (ofValue span value) := by
  cases value with
  | ok value => exact judgement.pure trivial
  | error error => exact judgement.fail hspan rfl

end Judgement

/-! ## Commands that run no script -/

/-- A pure computation that fails, if it does, for a reason of the language other than depth. -/
def FailsPlainly {α : Type} (value : Except Fault α) : Prop :=
  ∀ fault, value = .error fault → ∃ kind, fault = .failed kind ∧ kind.isTooDeep = false

namespace FailsPlainly

variable {α β : Type}

theorem ok (value : α) : FailsPlainly (.ok value) := nofun

theorem bind {value : Except Fault α} {next : α → Except Fault β} (hvalue : FailsPlainly value)
    (hnext : ∀ result, FailsPlainly (next result)) : FailsPlainly (value >>= next) := by
  cases value with
  | ok result => exact hnext result
  | error fault =>
      rintro _ ⟨⟩
      exact hvalue fault rfl

end FailsPlainly

namespace Function

theorem integer_failsPlainly (text : String) : FailsPlainly (integer text) := by
  unfold integer
  split
  · exact .ok _
  · rintro _ ⟨⟩
    exact ⟨_, rfl, rfl⟩

theorem compute_failsPlainly (operation : Arithmetic) (x y : Int64) :
    FailsPlainly (compute operation x y) := by
  have happly {kind : ErrorKind} (herror : operation.apply x y = .error kind) :
      kind.isTooDeep = false := by
    cases operation <;> simp only [Arithmetic.apply] at herror <;> try cases herror
    all_goals
      split at herror <;> cases herror
      rfl
  unfold compute
  split
  · exact .ok _
  next herror =>
    rintro _ ⟨⟩
    exact ⟨_, rfl, happly herror⟩

end Function

theorem Primitive.position_failsPlainly (text : String) : FailsPlainly (position text) := by
  refine (Function.integer_failsPlainly text).bind fun index => ?_
  split
  · rintro _ ⟨⟩
    exact ⟨_, rfl, rfl⟩
  · exact .ok _

namespace Judgement

open Exec

variable {α : Type} [Store S] {places : Span → Prop} (judgement : Judgement S places)
  {span : Span}

theorem ofFault (hspan : places span) {value : Except Fault α} (hvalue : FailsPlainly value) :
    judgement.holds (fun _ => True) (ofFault span value) := by
  cases value with
  | ok value => exact judgement.pure trivial
  | error fault =>
      obtain ⟨kind, rfl, hkind⟩ := hvalue fault rfl
      exact judgement.fail hspan hkind

theorem integer (hspan : places span) (text : String) :
    judgement.holds (fun _ => True) (Exec.ofFault span (Function.integer text)) :=
  judgement.ofFault hspan (Function.integer_failsPlainly text)

theorem items (hspan : places span) (name : String) :
    judgement.holds (fun _ => True) (Primitive.items span name) :=
  judgement.andThen judgement.store fun _ => judgement.ofValue hspan _

theorem position (hspan : places span) (text : String) :
    judgement.holds (fun _ => True) (Exec.ofFault span (Primitive.position text)) :=
  judgement.ofFault hspan (Primitive.position_failsPlainly text)

theorem checkLength (length : Nat) :
    judgement.holds (fun _ => True) (Primitive.checkLength length) := by
  unfold Primitive.checkLength
  split
  · exact judgement.done
  · exact judgement.tooLong

/-- A list that is padded has the length that it is padded to, or more. -/
theorem padTo (length : Nat) (texts : List String) :
    judgement.holds (fun padded => length ≤ padded.length) (Primitive.padTo length texts) := by
  refine judgement.andThen (judgement.checkLength _) fun _ => ?_
  exact judgement.pure (Primitive.le_length_rightpad length texts)

/-- A command on a list that has as many arguments as it takes. -/
theorem onList (hspan : places span) {command : ListCommand} {arguments : List String}
    (haccepts : (Keyword.list command).arity.accepts arguments.length = true) :
    judgement.holds (fun _ => True) (Primitive.onList span command arguments) := by
  cases command with
  | clear =>
      obtain ⟨name, rfl⟩ := Arity.one_argument haccepts
      exact judgement.set _ _
  | add =>
      obtain ⟨name, value, rfl⟩ := Arity.two_arguments haccepts
      refine judgement.andThen (judgement.items hspan name) fun texts => ?_
      exact judgement.andThen (judgement.checkLength _) fun _ => judgement.set _ _
  | get =>
      obtain ⟨name, place, rfl⟩ := Arity.two_arguments haccepts
      refine judgement.andThen (judgement.items hspan name) fun texts => ?_
      exact judgement.andThen (judgement.position hspan place) fun index => judgement.write _
  | length =>
      obtain ⟨name, rfl⟩ := Arity.one_argument haccepts
      exact judgement.andThen (judgement.items hspan name) fun texts => judgement.write _
  | set =>
      obtain ⟨name, place, value, rfl⟩ := Arity.three_arguments haccepts
      refine judgement.andThen (judgement.items hspan name) fun texts => ?_
      refine judgement.andThen (judgement.position hspan place) fun index => ?_
      refine judgement.bind (judgement.padTo (index + 1) texts) fun padded hpadded => ?_
      rw [if_pos (Nat.lt_of_succ_le hpadded)]
      exact judgement.set _ _
  | insertAt =>
      obtain ⟨name, place, value, rfl⟩ := Arity.three_arguments haccepts
      refine judgement.andThen (judgement.items hspan name) fun texts => ?_
      refine judgement.andThen (judgement.position hspan place) fun index => ?_
      refine judgement.bind (judgement.padTo index texts) fun padded hpadded => ?_
      refine judgement.andThen (judgement.checkLength _) fun _ => ?_
      rw [if_pos hpadded]
      exact judgement.set _ _
  | removeAt =>
      obtain ⟨name, place, rfl⟩ := Arity.two_arguments haccepts
      refine judgement.andThen (judgement.items hspan name) fun texts => ?_
      refine judgement.andThen (judgement.position hspan place) fun index => ?_
      split
      · exact judgement.set _ _
      · exact judgement.done

/-- A command on an array that has as many arguments as it takes. -/
theorem onArray (hspan : places span) {command : ArrayCommand} {arguments : List String}
    (haccepts : (Keyword.array command).arity.accepts arguments.length = true) :
    judgement.holds (fun _ => True) (Primitive.onArray span command arguments) := by
  cases command with
  | clear =>
      obtain ⟨name, rfl⟩ := Arity.one_argument haccepts
      exact judgement.mapStore (Primitive.clearCells_writes name)
  | get =>
      obtain ⟨name, y, x, rfl⟩ := Arity.three_arguments haccepts
      refine judgement.andThen (judgement.integer hspan y) fun row => ?_
      refine judgement.andThen (judgement.integer hspan x) fun column => ?_
      exact judgement.andThen judgement.store fun current => judgement.write _
  | set =>
      obtain ⟨name, y, x, value, rfl⟩ := Arity.four_arguments haccepts
      refine judgement.andThen (judgement.integer hspan y) fun row => ?_
      exact judgement.andThen (judgement.integer hspan x) fun column => judgement.set _ _

theorem update (hspan : places span) (operation : Arithmetic) (key operand : String) :
    judgement.holds (fun _ => True) (Primitive.update span operation key operand) := by
  refine judgement.andThen judgement.store fun current => ?_
  refine judgement.andThen (judgement.ofValue hspan _) fun number => ?_
  refine judgement.andThen (judgement.integer hspan operand) fun amount => ?_
  refine judgement.andThen (judgement.ofFault hspan ?_) fun result => judgement.set _ _
  exact Function.compute_failsPlainly operation number amount

/-- A command that runs no script and has as many arguments as it takes. -/
theorem primitive (hspan : places span) {keyword : Keyword} {arguments : List String}
    (hcontrol : keyword.isControl = false) (hscript : keyword.runsScript = false)
    (haccepts : keyword.arity.accepts arguments.length = true) :
    judgement.holds (fun _ => True) (Primitive.run span keyword arguments) := by
  have hread (change : S → String) :
      judgement.holds (fun _ => True) (Exec.store >>= fun current => Exec.write (change current)) :=
    judgement.andThen judgement.store fun current => judgement.write _
  -- A function writes what it gives for its arguments.
  have hfunction (heval : FailsPlainly (Function.eval keyword arguments)) :
      judgement.holds (fun _ => True)
        (Exec.ofFault span (Function.eval keyword arguments) >>= fun text => Exec.write text) :=
    judgement.andThen (judgement.ofFault hspan heval) fun text => judgement.write text
  cases keyword with
  | branch | connector | loop | endLoop => cases hcontrol
  | exec | script | getValue => cases hscript
  | comment =>
      obtain ⟨text, rfl⟩ := Arity.one_argument haccepts
      exact judgement.done
  | set =>
      obtain ⟨key, value, rfl⟩ := Arity.two_arguments haccepts
      exact judgement.set _ _
  | swap =>
      obtain ⟨first, second, rfl⟩ := Arity.two_arguments haccepts
      exact judgement.mapStore (Primitive.exchange_writes first second)
  | update operation =>
      rw [Keyword.arity_update] at haccepts
      obtain ⟨key, operand, rfl⟩ := Arity.two_arguments haccepts
      exact judgement.update hspan operation key operand
  | newline =>
      obtain rfl := List.eq_nil_of_length_eq_zero (Arity.eq_of_accepts_exactly haccepts)
      exact judgement.write _
  | message | get =>
      obtain ⟨key, rfl⟩ := Arity.one_argument haccepts
      exact hread _
  | askStored question =>
      rw [Keyword.arity_askStored] at haccepts
      obtain ⟨key, rfl⟩ := Arity.one_argument haccepts
      exact hread _
  | write => exact judgement.write _
  | random =>
      obtain ⟨limit, rfl⟩ := Arity.one_argument haccepts
      refine judgement.andThen (judgement.integer hspan limit) fun number => ?_
      exact judgement.elementary (.random number)
  | chance =>
      obtain ⟨percent, rfl⟩ := Arity.one_argument haccepts
      refine judgement.andThen (judgement.integer hspan percent) fun number => ?_
      exact judgement.elementary (.chance number)
  | receive =>
      obtain rfl := List.eq_nil_of_length_eq_zero (Arity.eq_of_accepts_exactly haccepts)
      exact judgement.elementary .receive
  | send =>
      obtain ⟨text, rfl⟩ := Arity.one_argument haccepts
      exact judgement.elementary (.send text)
  | list command => exact judgement.onList hspan haccepts
  | array command => exact judgement.onArray hspan haccepts
  | abs =>
      obtain ⟨x, rfl⟩ := Arity.one_argument haccepts
      exact hfunction ((Function.integer_failsPlainly x).bind fun _ => .ok _)
  | arithmetic operation =>
      rw [Keyword.arity_arithmetic] at haccepts
      obtain ⟨x, y, rfl⟩ := Arity.two_arguments haccepts
      refine hfunction ((Function.integer_failsPlainly x).bind fun first => ?_)
      refine (Function.integer_failsPlainly y).bind fun second => ?_
      exact (Function.compute_failsPlainly operation first second).bind fun _ => .ok _
  | compare comparison =>
      rw [Keyword.arity_compare] at haccepts
      obtain ⟨x, y, rfl⟩ := Arity.two_arguments haccepts
      refine hfunction ((Function.integer_failsPlainly x).bind fun first => ?_)
      exact (Function.integer_failsPlainly y).bind fun second => .ok _
  | ask question =>
      rw [Keyword.arity_ask] at haccepts
      obtain ⟨text, rfl⟩ := Arity.one_argument haccepts
      exact hfunction (.ok _)
  | lower | upper | trim =>
      obtain ⟨text, rfl⟩ := Arity.one_argument haccepts
      exact hfunction (.ok _)
  | replace =>
      obtain ⟨text, pattern, replacement, rfl⟩ := Arity.three_arguments haccepts
      exact hfunction (.ok _)
  | substring =>
      rcases Arity.two_or_three_arguments haccepts with ⟨text, start, rfl⟩ |
        ⟨text, start, length, rfl⟩
      · exact hfunction ((Function.integer_failsPlainly start).bind fun _ => .ok _)
      · refine hfunction ((Function.integer_failsPlainly length).bind fun _ => ?_)
        exact (Function.integer_failsPlainly start).bind fun _ => .ok _
  | concat => exact hfunction (.ok _)
  | format =>
      obtain ⟨template, values, rfl⟩ :=
        List.exists_cons_of_length_pos (Arity.le_of_accepts_atLeast haccepts)
      exact hfunction (.ok _)

end Judgement

end AtScript
