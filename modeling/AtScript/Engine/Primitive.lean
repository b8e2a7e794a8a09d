import AtScript.Engine.Function
import AtScript.Value.Cell
import AtScript.Value.Item
import AtScript.Value.PackedList

/-! # Primitive commands

Commands that run no script. Each one reads all it needs before it changes anything, so it happens
completely or not at all. A failure is reported at the span of the command. Lists grow on demand, but
there is a longest list, and a command that would make a longer one ends the whole run.
-/

namespace AtScript.Primitive

open Exec

variable {S : Type} [Store S]

/-- The items of the packed list that a key holds. -/
def items (span : Span) (name : String) : Exec S (List String) := do
  ofValue span (PackedList.decode (Store.get (← store) name))

/-- Stores a list under a key. -/
def saveItems (name : String) (texts : List String) : Exec S Unit :=
  mapStore fun store => Store.set store name (PackedList.encode texts)

/-- Reads an argument as a position in a list. -/
def position (text : String) : Except Fault Nat := do
  let index ← Function.integer text
  if index < 0 then .error (.failed (.negativeIndex index)) else return index.toInt.toNat

/-- The number of items in the longest list. An item takes 24 bytes beside its text, and no list
takes more bytes than a signed number of 64 bits can count. -/
def maxLength : Nat := (1 <<< 63 - 1) / 24

/-- Insists that there can be a list of `length` items. Lists are checked before they are made. -/
def checkLength (length : Nat) : Exec S Unit :=
  if length ≤ maxLength then return () else throw .tooLong

/-- A list with empty items appended until it has `length` of them. -/
def padTo (length : Nat) (texts : List String) : Exec S (List String) := do
  checkLength (max length texts.length)
  return texts ++ List.replicate (length - texts.length) ""

theorem le_length_rightpad (length : Nat) (texts : List String) :
    length ≤ (texts.rightpad length "").length := by
  rw [List.length_rightpad]
  exact Nat.le_max_left length texts.length

omit [Store S] in
/-- The length of a padded list is checked before anything is done with the list. -/
theorem padTo_bind {α : Type} (length : Nat) (texts : List String) (next : List String → Exec S α) :
    padTo length texts >>= next =
      checkLength (texts.rightpad length "").length >>= fun _ => next (texts.rightpad length "") := by
  rw [List.length_rightpad, padTo, bind_assoc]
  simp only [pure_bind]
  rfl

/-- Runs a command on a packed list. -/
def onList (span : Span) (command : ListCommand) (arguments : List String) : Exec S Unit :=
  match command, arguments with
  | .clear, [name] => mapStore fun store => Store.set store name ""
  | .add, [name, value] => do
    let texts ← items span name
    checkLength (texts.length + 1)
    saveItems name (texts ++ [value])
  | .get, [name, place] => do
    let texts ← items span name
    let index ← ofFault span (position place)
    write (texts.getD index "")
  | .length, [name] => do
    let texts ← items span name
    write (toString texts.length)
  | .set, [name, place, value] => do
    let texts ← items span name
    let index ← ofFault span (position place)
    let padded ← padTo (index + 1) texts
    if index < padded.length then saveItems name (padded.set index value) else throw .defect
  | .insertAt, [name, place, value] => do
    let texts ← items span name
    let index ← ofFault span (position place)
    let padded ← padTo index texts
    checkLength (padded.length + 1)
    if index ≤ padded.length then saveItems name (padded.insertIdx index value)
    else throw .defect
  | .removeAt, [name, place] => do
    let texts ← items span name
    let index ← ofFault span (position place)
    if index < texts.length then saveItems name (texts.eraseIdx index) else return ()
  | _, _ => throw .defect

/-- A store in which all cells of an array are cleared. -/
def clearCells (array : String) (store : S) : S :=
  ((Store.entriesFrom store (Cell.keyStart array)).map Prod.fst).foldl
    (fun rest key => Store.set rest key "") store

/-- Runs a command on an array. -/
def onArray (span : Span) (command : ArrayCommand) (arguments : List String) : Exec S Unit :=
  match command, arguments with
  | .clear, [name] => mapStore (clearCells name)
  | .get, [name, y, x] => do
    let row ← ofFault span (Function.integer y)
    let column ← ofFault span (Function.integer x)
    write (Value.unpackItem (Store.get (← store) (Cell.key name row column)))
  | .set, [name, y, x, value] => do
    let row ← ofFault span (Function.integer y)
    let column ← ofFault span (Function.integer x)
    mapStore fun store => Store.set store (Cell.key name row column) (Value.packItem value)
  | _, _ => throw .defect

/-- Changes a stored integer by an operation. -/
def update (span : Span) (operation : Arithmetic) (key operand : String) : Exec S Unit := do
  let current ← ofValue span (Store.getInt (← store) key)
  let amount ← ofFault span (Function.integer operand)
  let result ← ofFault span (Function.compute operation current amount)
  mapStore fun store => Store.set store key (Decimal.ofInt64 result)

/-- A store in which two keys have exchanged their values. -/
def exchange (first second : String) (store : S) : S :=
  let old := Store.get store first
  Store.set (Store.set store first (Store.get store second)) second old

/-- Writes a random integer below a limit. -/
def random (limit : Int64) : Exec S Unit := do
  let (number, after) := Random.integerBelow limit (← get).engine.generator
  modify (·.withGenerator after)
  write (Decimal.ofInt64 number)

/-- Writes whether an event with a chance of `percent` in a hundred happens. -/
def chance (percent : Int64) : Exec S Unit := do
  let (hit, after) := Random.event percent (← get).engine.generator
  modify (·.withGenerator after)
  write (Value.ofBool hit)

/-- Writes the next text from the host, if there is one. -/
def receive : Exec S Unit := do
  match (← get).engine.inbox with
  | [] => return ()
  | text :: rest =>
    modify (·.withInbox rest)
    write text

/-- Runs a primitive command. -/
def run (span : Span) (keyword : Keyword) (arguments : List String) : Exec S Unit :=
  match keyword, arguments with
  | .comment, [_] => return ()
  | .set, [key, value] => mapStore fun store => Store.set store key value
  | .swap, [first, second] => mapStore (exchange first second)
  | .update operation, [key, operand] => update span operation key operand
  | .newline, [] => write Value.lineBreak
  | .message, [key] => do
    write (Store.get (← store) key ++ Value.lineBreak)
  | .write, texts => write (String.join texts)
  | .get, [key] => do
    write (Store.get (← store) key)
  | .askStored question, [key] => do
    write (Value.ofBool (question.holds (Store.get (← store) key)))
  | .random, [limit] => do
    random (← ofFault span (Function.integer limit))
  | .chance, [percent] => do
    chance (← ofFault span (Function.integer percent))
  | .receive, [] => receive
  | .send, [text] => modify (·.send text)
  | .list command, arguments => onList span command arguments
  | .array command, arguments => onArray span command arguments
  | keyword, arguments => do
    write (← ofFault span (Function.eval keyword arguments))

end AtScript.Primitive
