import AtScript.Proofs.Judgement
import AtScript.Proofs.Templates

/-! # Commands that can break

A machine reads the arguments of a command by their positions, changes lists by position, looks
keywords up in a table and sends each keyword to the function that is there for it. Where a position
is missing, a number does not fit its word or a keyword has come to the wrong function, the machine
*breaks*. With as many arguments as it takes, a command that runs no script does not break: it does
what it does without the machine. A list that would be longer than any list can be does not break the
machine either: it ends the run with and without the guards.
-/

namespace AtScript

/-- Why a guarded computation stops early. -/
inductive Halt where
  /-- It fails with an error of the language. -/
  | failed (error : RunError)
  /-- It needs more steps than it was given. -/
  | outOfFuel
  /-- It would make a list that is longer than any list can be. -/
  | tooLong
  /-- It comes to a script whose offsets do not fit words of 32 bits. -/
  | oversized (script : String)
  /-- It takes a step that has no result. -/
  | broken
deriving Repr, DecidableEq

namespace Halt

def ofStop : Stop RunError → Halt
  | .failed error => .failed error
  | .outOfFuel => .outOfFuel
  | .tooLong => .tooLong
  | .defect => .broken

/-- Records the script that a failure leaves. -/
def inScript (script : String) : Halt → Halt
  | .failed error => .failed (error.inScript script)
  | halt => halt

end Halt

/-- A computation on frames that can break. -/
abbrev Guarded (S : Type) : Type → Type := EStateM Halt (Frame S)

/-- The entry of a keyword, looked up in the table. -/
def Keyword.entry? (keyword : Keyword) : Option KeywordEntry :=
  (all.map fun keyword => (keyword, keyword.entry)).lookup keyword

/-- A pattern without characters is not replaced. -/
theorem Text.replaceAll_of_isEmpty {pattern : String} (hempty : pattern.isEmpty = true)
    (text replacement : String) : replaceAll text pattern replacement = text := by
  obtain rfl := String.isEmpty_iff.mp hempty
  rfl

/-- Whether a keyword gives a text for its arguments alone. -/
def Keyword.isFunction : Keyword → Bool
  | .abs | .arithmetic _ | .concat | .lower | .upper | .trim | .replace | .substring | .format
  | .compare _ | .ask _ => true
  | _ => false

theorem Keyword.mem_all (keyword : Keyword) : keyword ∈ all := by
  cases keyword <;> first | decide | (rename_i part; cases part <;> decide)

/-- Every keyword has its entry in the table. -/
theorem Keyword.entry?_eq (keyword : Keyword) : keyword.entry? = some keyword.entry := by
  have hlookup (keywords : List Keyword) (hmem : keyword ∈ keywords) :
      (keywords.map fun keyword => (keyword, keyword.entry)).lookup keyword =
        some keyword.entry := by
    induction keywords with
    | nil => cases hmem
    | cons first rest ih =>
        rw [List.map_cons, List.lookup_cons]
        cases hsame : keyword == first with
        | true => rw [eq_of_beq hsame]
        | false =>
            rcases List.mem_cons.mp hmem with heq | hmem
            · rw [heq, beq_self_eq_true] at hsame
              cases hsame
            · exact ih hmem
  exact hlookup all keyword.mem_all

namespace Guarded

variable {S α β : Type}

/-! ## Steps -/

/-- Takes over a computation that has no guards. -/
def lift (action : Exec S α) : Guarded S α := fun frame =>
  match action frame with
  | .ok value after => .ok value after
  | .error stop after => .error (.ofStop stop) after

/-- Insists on a value. -/
def expect : Option α → Guarded S α
  | some value => pure value
  | none => throw .broken

/-- Fails with an error at a token. -/
def fail (kind : ErrorKind) (span : Span) : Guarded S α :=
  lift (Exec.fail kind span)

def write (text : String) : Guarded S Unit :=
  lift (Exec.write text)

def store : Guarded S S :=
  lift Exec.store

/-- Runs a computation with an output of its own and gives that output. -/
def capture (action : Guarded S α) : Guarded S (α × String)
  | ⟨engine, out⟩ =>
    match action ⟨engine, ""⟩ with
    | .ok value after => .ok (value, after.out) ⟨after.engine, out⟩
    | .error halt after => .error halt ⟨after.engine, out⟩

/-- Whether a keyword belongs to a branch or a loop, by its entry in the table. -/
def isControl (keyword : Keyword) : Guarded S Bool := do
  let entry ← expect keyword.entry?
  let ends := match keyword with
    | .endLoop _ => true
    | _ => false
  return entry.group == .branching || entry.group == .connector || ends
    || keyword.loopEnd?.isSome

/-- Fails unless a keyword takes the number of arguments it was given, by its entry in the table. -/
def checkArity (command : Token) (keyword : Keyword) (found : Nat) : Guarded S Unit := do
  let entry ← expect keyword.entry?
  lift (Exec.checkArity command entry.arity found)

/-- The argument at a position. -/
def argument (arguments : List String) (place : Nat) : Guarded S String :=
  expect arguments[place]?

/-- The argument at a position as an integer. -/
def integer (span : Span) (arguments : List String) (place : Nat) : Guarded S Int64 := do
  lift (Exec.ofFault span (Function.integer (← argument arguments place)))

/-! ## Functions of keywords -/

/-- Applies the operation of a keyword that has one. -/
def arithmetic (span : Span) (keyword : Keyword) (x y : Int64) : Guarded S Int64 :=
  match keyword with
  | .arithmetic operation | .update operation =>
    lift (Exec.ofFault span (Function.compute operation x y))
  | _ => throw .broken

/-- The answer to the question of a keyword that asks one. -/
def predicate (keyword : Keyword) (text : String) : Guarded S Bool :=
  match keyword with
  | .ask question | .askStored question => return question.holds text
  | _ => throw .broken

/-- The text that a keyword gives for its arguments alone. -/
def function (span : Span) (keyword : Keyword) (arguments : List String) : Guarded S String :=
  match keyword with
  | .abs => do
    return Decimal.ofInt64 (Function.absolute (← integer span arguments 0))
  | .arithmetic _ => do
    let first ← integer span arguments 0
    let second ← integer span arguments 1
    return Decimal.ofInt64 (← arithmetic span keyword first second)
  | .concat => return String.join arguments
  | .lower => do return Text.lower (← argument arguments 0)
  | .upper => do return Text.upper (← argument arguments 0)
  | .trim => do return Text.trim (← argument arguments 0)
  | .replace => do
    let pattern ← argument arguments 1
    let text ← argument arguments 0
    if pattern.isEmpty then return text
    else return Text.replaceAll text pattern (← argument arguments 2)
  | .substring => do
    let length ← match arguments[2]? with
      | some length => some <$> lift (Exec.ofFault span (Function.integer length))
      | none => pure none
    let text ← argument arguments 0
    return Function.substring text (← integer span arguments 1) length
  | .format => do
    let template ← argument arguments 0
    let values ← expect (Machine.slice? arguments 1 arguments.length)
    expect (Function.format? template values)
  | .compare comparison => do
    let first ← integer span arguments 0
    let second ← integer span arguments 1
    return Value.ofBool (comparison.holds first second)
  | .ask _ => do
    return Value.ofBool (← predicate keyword (← argument arguments 0))
  | _ => throw .broken

variable [Store S]

/-- Runs a keyword that works on a packed list, other than clearing it. `texts` are the items of
the list. -/
def changeList (span : Span) (keyword : Keyword) (arguments : List String) (name : String)
    (texts : List String) : Guarded S Unit :=
  match keyword with
  | .list .add => do
    let value ← argument arguments 1
    lift (Primitive.checkLength (texts.length + 1))
    lift (Primitive.saveItems name (texts ++ [value]))
  | .list .get => do
    let index ← lift (Exec.ofFault span (Primitive.position (← argument arguments 1)))
    write (texts.getD index "")
  | .list .length => write (toString texts.length)
  | .list .set => do
    let index ← lift (Exec.ofFault span (Primitive.position (← argument arguments 1)))
    let length ← expect (Machine.size? (index + 1))
    let padded ← lift (Primitive.padTo length texts)
    let value ← argument arguments 2
    if index < padded.length then lift (Primitive.saveItems name (padded.set index value))
    else throw .broken
  | .list .insertAt => do
    let index ← lift (Exec.ofFault span (Primitive.position (← argument arguments 1)))
    let padded ← lift (Primitive.padTo index texts)
    let value ← argument arguments 2
    lift (Primitive.checkLength (padded.length + 1))
    if index ≤ padded.length then lift (Primitive.saveItems name (padded.insertIdx index value))
    else throw .broken
  | .list .removeAt => do
    let index ← lift (Exec.ofFault span (Primitive.position (← argument arguments 1)))
    if texts.length ≤ index then return ()
    else if index < texts.length then lift (Primitive.saveItems name (texts.eraseIdx index))
    else throw .broken
  | _ => throw .broken

/-- Runs a keyword that works on a packed list. -/
def onList (span : Span) (keyword : Keyword) (arguments : List String) : Guarded S Unit := do
  let name ← argument arguments 0
  if keyword = .list .clear then
    lift (Exec.mapStore fun store => Store.set store name "")
  else
    changeList span keyword arguments name (← lift (Primitive.items span name))

/-- Runs a keyword that works on an array. -/
def onArray (span : Span) (keyword : Keyword) (arguments : List String) : Guarded S Unit := do
  let name ← argument arguments 0
  match keyword with
  | .array .clear => lift (Exec.mapStore (Primitive.clearCells name))
  | .array .get => do
    let row ← integer span arguments 1
    let column ← integer span arguments 2
    write (Value.unpackItem (Store.get (← store) (Cell.key name row column)))
  | .array .set => do
    let row ← integer span arguments 1
    let column ← integer span arguments 2
    let value ← argument arguments 3
    lift (Exec.mapStore fun store =>
      Store.set store (Cell.key name row column) (Value.packItem value))
  | _ => throw .broken

/-- Runs a keyword that runs no script. -/
def primitive (span : Span) (keyword : Keyword) (arguments : List String) : Guarded S Unit :=
  match keyword with
  | .comment => return ()
  | .set => do
    let key ← argument arguments 0
    let value ← argument arguments 1
    lift (Exec.mapStore fun store => Store.set store key value)
  | .swap => do
    let first ← argument arguments 0
    let second ← argument arguments 1
    lift (Exec.mapStore (Primitive.exchange first second))
  | .update _ => do
    let key ← argument arguments 0
    let current ← lift (Exec.ofValue span (Store.getInt (← store) key))
    let amount ← integer span arguments 1
    let result ← arithmetic span keyword current amount
    lift (Exec.mapStore fun store => Store.set store key (Decimal.ofInt64 result))
  | .newline => write Value.lineBreak
  | .message => do
    let key ← argument arguments 0
    write (Store.get (← store) key ++ Value.lineBreak)
  | .write => write (String.join arguments)
  | .get => do
    let key ← argument arguments 0
    write (Store.get (← store) key)
  | .askStored _ => do
    let key ← argument arguments 0
    write (Value.ofBool (← predicate keyword (Store.get (← store) key)))
  | .random => do lift (Primitive.random (← integer span arguments 0))
  | .chance => do lift (Primitive.chance (← integer span arguments 0))
  | .receive => lift Primitive.receive
  | .send => do
    let text ← argument arguments 0
    lift (modify (·.send text))
  | .list _ => onList span keyword arguments
  | .array _ => onArray span keyword arguments
  | _ => do write (← function span keyword arguments)

/-! ## What is guarded by the number of arguments -/

section

omit [Store S]

theorem lift_bind (action : Exec S α) (next : α → Exec S β) :
    lift (action >>= next) = lift action >>= fun value => lift (next value) := by
  funext frame
  simp only [lift, bind, EStateM.bind]
  cases action frame <;> rfl

theorem lift_ofFault_bind {value : Except Fault α} {next : α → Guarded S β} {next' : α → Exec S β}
    (span : Span) (hnext : ∀ result, value = .ok result → next result = lift (next' result)) :
    lift (Exec.ofFault span value) >>= next = lift (Exec.ofFault span value >>= next') := by
  rw [lift_bind]
  cases value with
  | ok result => exact hnext result rfl
  | error fault => rfl

@[simp]
theorem expect_some (value : α) : (expect (some value) : Guarded S α) = pure value := rfl

/-- What the table says of a keyword is what its constructor says. -/
theorem isControl_eq (keyword : Keyword) :
    (isControl keyword : Guarded S Bool) = pure keyword.isControl := by
  unfold isControl
  rw [Keyword.entry?_eq, expect_some, pure_bind]
  cases keyword <;> first | rfl | (rename_i part; cases part <;> rfl)

theorem checkArity_eq (command : Token) (keyword : Keyword) (found : Nat) :
    (checkArity command keyword found : Guarded S Unit) =
      lift (Exec.checkArity command keyword.arity found) := by
  rw [checkArity, Keyword.entry?_eq, expect_some, pure_bind]
  rfl

@[simp]
theorem argument_zero (first : String) (rest : List String) :
    (argument (first :: rest) 0 : Guarded S String) = pure first := rfl

@[simp]
theorem argument_succ (first : String) (rest : List String) (place : Nat) :
    (argument (first :: rest) (place + 1) : Guarded S String) = argument rest place := rfl

theorem ofFault_bind (span : Span) (value : Except Fault α) (next : α → Except Fault β) :
    (Exec.ofFault span (value >>= next) : Exec S β) =
      Exec.ofFault span value >>= fun result => Exec.ofFault span (next result) := by
  cases value <;> rfl

/-- Functions that have as many arguments as they take. -/
theorem function_eq {keyword : Keyword} {arguments : List String} (span : Span)
    (hfunction : keyword.isFunction = true)
    (haccepts : keyword.arity.accepts arguments.length = true) :
    function span keyword arguments =
      lift (S := S) (Exec.ofFault span (Function.eval keyword arguments)) := by
  cases keyword with
  | abs =>
      obtain ⟨x, rfl⟩ := Arity.one_argument haccepts
      simp only [Function.eval, ofFault_bind, lift_bind]
      rfl
  | arithmetic operation =>
      rw [Keyword.arity_arithmetic] at haccepts
      obtain ⟨x, y, rfl⟩ := Arity.two_arguments haccepts
      simp only [Function.eval, ofFault_bind, lift_bind]
      rfl
  | concat => rfl
  | lower | upper | trim =>
      obtain ⟨text, rfl⟩ := Arity.one_argument haccepts
      rfl
  | replace =>
      obtain ⟨text, pattern, replacement, rfl⟩ := Arity.three_arguments haccepts
      simp only [function, argument_zero, argument_succ, pure_bind, Function.eval]
      split
      next hempty =>
        rw [Text.replaceAll_of_isEmpty hempty]
        rfl
      next => rfl
  | substring =>
      rcases Arity.two_or_three_arguments haccepts with ⟨text, start, rfl⟩ |
        ⟨text, start, length, rfl⟩
      · simp only [Function.eval, ofFault_bind, lift_bind]
        rfl
      · simp only [Function.eval, ofFault_bind, lift_bind, function, List.getElem?_cons_succ,
          List.getElem?_cons_zero, map_eq_pure_bind, bind_assoc, pure_bind]
        rfl
  | format =>
      obtain ⟨template, values, rfl⟩ :=
        List.exists_cons_of_length_pos (Arity.le_of_accepts_atLeast haccepts)
      have hslice : Machine.slice? (template :: values) 1 (template :: values).length =
          some values := by
        rw [Machine.slice?, if_pos (by simp)]
        simp
      simp only [function, argument_zero, pure_bind, hslice, expect_some, Function.format?_eq]
      rfl
  | compare comparison =>
      rw [Keyword.arity_compare] at haccepts
      obtain ⟨x, y, rfl⟩ := Arity.two_arguments haccepts
      simp only [Function.eval, ofFault_bind, lift_bind]
      rfl
  | ask question =>
      rw [Keyword.arity_ask] at haccepts
      obtain ⟨text, rfl⟩ := Arity.one_argument haccepts
      rfl
  | _ => cases hfunction

end

/-- A position in a list fits a word, and so does the next one. -/
theorem position_lt {place : String} {index : Nat} (hindex : Primitive.position place = .ok index) :
    index + 1 < UInt64.size := by
  rw [Primitive.position] at hindex
  cases hnumber : Function.integer place with
  | error fault =>
      rw [hnumber] at hindex
      cases hindex
  | ok number =>
      rw [hnumber] at hindex
      have hvalue : (if number < 0 then Except.error (.failed (.negativeIndex number))
          else .ok number.toInt.toNat : Except Fault Nat) = .ok index := hindex
      split at hvalue
      next => cases hvalue
      next =>
        cases hvalue
        have hsmall := number.toInt_lt
        have hsize : UInt64.size = 2 ^ 64 := rfl
        omega

omit [Store S] in
/-- What is done with a padded list may rely on its length. -/
theorem lift_padTo_bind {length : Nat} {texts : List String} {next : List String → Guarded S α}
    {next' : List String → Exec S α}
    (hnext : ∀ padded, length ≤ padded.length → next padded = lift (next' padded)) :
    lift (Primitive.padTo length texts) >>= next =
      lift (Primitive.padTo length texts >>= next') := by
  simp only [Primitive.padTo, lift_bind, bind_assoc]
  congr 1
  funext _
  exact hnext _ (Primitive.le_length_rightpad length texts)

/-- A command other than clearing a list reads the list first. -/
theorem onList_of_ne {command : ListCommand} (hclear : command ≠ .clear) (span : Span)
    (name : String) (rest : List String) :
    onList span (.list command) (name :: rest) =
      (lift (Primitive.items span name) >>= fun texts =>
        changeList span (.list command) (name :: rest) name texts : Guarded S Unit) := by
  rw [onList, argument_zero, pure_bind, if_neg]
  intro hsame
  cases hsame
  exact hclear rfl

theorem onList_eq {command : ListCommand} {arguments : List String} (span : Span)
    (haccepts : (Keyword.list command).arity.accepts arguments.length = true) :
    onList span (.list command) arguments =
      lift (S := S) (Primitive.onList span command arguments) := by
  cases command with
  | clear =>
      obtain ⟨name, rfl⟩ := Arity.one_argument haccepts
      rfl
  | add =>
      obtain ⟨name, value, rfl⟩ := Arity.two_arguments haccepts
      simp only [onList_of_ne (nofun : ListCommand.add ≠ .clear), Primitive.onList, lift_bind]
      rfl
  | get =>
      obtain ⟨name, place, rfl⟩ := Arity.two_arguments haccepts
      simp only [onList_of_ne (nofun : ListCommand.get ≠ .clear), Primitive.onList, lift_bind]
      rfl
  | length =>
      obtain ⟨name, rfl⟩ := Arity.one_argument haccepts
      simp only [onList_of_ne (nofun : ListCommand.length ≠ .clear), Primitive.onList, lift_bind]
      rfl
  | set =>
      obtain ⟨name, place, value, rfl⟩ := Arity.three_arguments haccepts
      rw [onList_of_ne (nofun : ListCommand.set ≠ .clear), Primitive.onList, lift_bind]
      congr 1
      funext texts
      refine lift_ofFault_bind span fun index hindex => ?_
      rw [Machine.size?_of_lt (position_lt hindex)]
      refine lift_padTo_bind fun padded hpadded => ?_
      rw [if_pos (Nat.lt_of_succ_le hpadded)]
      exact if_pos (Nat.lt_of_succ_le hpadded)
  | insertAt =>
      obtain ⟨name, place, value, rfl⟩ := Arity.three_arguments haccepts
      rw [onList_of_ne (nofun : ListCommand.insertAt ≠ .clear), Primitive.onList, lift_bind]
      congr 1
      funext texts
      refine lift_ofFault_bind span fun index hindex => ?_
      refine lift_padTo_bind fun padded hpadded => ?_
      simp only [lift_bind, if_pos hpadded]
      rfl
  | removeAt =>
      obtain ⟨name, place, rfl⟩ := Arity.two_arguments haccepts
      rw [onList_of_ne (nofun : ListCommand.removeAt ≠ .clear), Primitive.onList, lift_bind]
      congr 1
      funext texts
      refine lift_ofFault_bind span fun index hindex => ?_
      by_cases hinside : index < texts.length
      · rw [if_neg (Nat.not_le.mpr hinside), if_pos hinside, if_pos hinside]
      · rw [if_pos (Nat.not_lt.mp hinside), if_neg hinside]
        rfl

theorem onArray_eq {command : ArrayCommand} {arguments : List String} (span : Span)
    (haccepts : (Keyword.array command).arity.accepts arguments.length = true) :
    onArray span (.array command) arguments =
      lift (S := S) (Primitive.onArray span command arguments) := by
  cases command with
  | clear =>
      obtain ⟨name, rfl⟩ := Arity.one_argument haccepts
      rfl
  | get =>
      obtain ⟨name, y, x, rfl⟩ := Arity.three_arguments haccepts
      simp only [Primitive.onArray, lift_bind]
      rfl
  | set =>
      obtain ⟨name, y, x, value, rfl⟩ := Arity.four_arguments haccepts
      simp only [Primitive.onArray, lift_bind]
      rfl

theorem primitive_eq {keyword : Keyword} {arguments : List String} (span : Span)
    (hcontrol : keyword.isControl = false) (hscript : keyword.runsScript = false)
    (haccepts : keyword.arity.accepts arguments.length = true) :
    primitive span keyword arguments = lift (S := S) (Primitive.run span keyword arguments) := by
  cases keyword with
  | branch | connector | loop | endLoop => cases hcontrol
  | exec | script | getValue => cases hscript
  | comment =>
      obtain ⟨text, rfl⟩ := Arity.one_argument haccepts
      rfl
  | set =>
      obtain ⟨key, value, rfl⟩ := Arity.two_arguments haccepts
      rfl
  | swap =>
      obtain ⟨first, second, rfl⟩ := Arity.two_arguments haccepts
      rfl
  | update operation =>
      rw [Keyword.arity_update] at haccepts
      obtain ⟨key, operand, rfl⟩ := Arity.two_arguments haccepts
      simp only [Primitive.run, Primitive.update, lift_bind]
      rfl
  | newline =>
      obtain rfl := List.eq_nil_of_length_eq_zero (Arity.eq_of_accepts_exactly haccepts)
      rfl
  | message | get =>
      obtain ⟨key, rfl⟩ := Arity.one_argument haccepts
      simp only [Primitive.run, lift_bind]
      rfl
  | askStored question =>
      rw [Keyword.arity_askStored] at haccepts
      obtain ⟨key, rfl⟩ := Arity.one_argument haccepts
      simp only [Primitive.run, lift_bind]
      rfl
  | write => rfl
  | random | chance =>
      obtain ⟨limit, rfl⟩ := Arity.one_argument haccepts
      simp only [Primitive.run, lift_bind]
      rfl
  | receive =>
      obtain rfl := List.eq_nil_of_length_eq_zero (Arity.eq_of_accepts_exactly haccepts)
      rfl
  | send =>
      obtain ⟨text, rfl⟩ := Arity.one_argument haccepts
      rfl
  | list command => exact onList_eq span haccepts
  | array command => exact onArray_eq span haccepts
  | _ =>
      have hfunction := function_eq (S := S) span rfl haccepts
      simp only [primitive, hfunction, Primitive.run, lift_bind]
      rfl

end Guarded

end AtScript
