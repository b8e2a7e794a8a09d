import AtScript.Engine.Basic
import AtScript.Text.CaseMap
import AtScript.Text.Replace

/-! # Functions

Commands that compute a text from their arguments alone.
-/

namespace AtScript

/-- Applies an operation to 64-bit integers. Results wrap around; quotients are rounded toward
zero. -/
def Arithmetic.apply : Arithmetic → Int64 → Int64 → Except ErrorKind Int64
  | .add, x, y => .ok (x + y)
  | .sub, x, y => .ok (x - y)
  | .mul, x, y => .ok (x * y)
  | .div, x, y => if y = 0 then .error .divisionByZero else .ok (x / y)
  | .mod, x, y => if y = 0 then .error .divisionByZero else .ok (x % y)

/-- Whether a comparison holds between two integers. -/
def Comparison.holds : Comparison → Int64 → Int64 → Bool
  | .eq, x, y => x == y
  | .ne, x, y => x != y
  | .lt, x, y => x < y
  | .le, x, y => x ≤ y
  | .gt, x, y => y < x
  | .ge, x, y => y ≤ x

/-- The answer to a question about a value. A text that is no truth value counts as true. -/
def Question.holds (text : String) : Question → Bool
  | .isTrue => match Value.toBool text with
    | .ok value => value
    | .error _ => true
  | .isFalse => match Value.toBool text with
    | .ok value => !value
    | .error _ => false
  | .isNull => Value.isNull text
  | .isScript => Value.isScript text
  | .isBool => match Value.toBool text with
    | .ok _ => true
    | .error _ => false

namespace Function

/-- The absolute value, which for the least integer is that integer itself. -/
def absolute (x : Int64) : Int64 :=
  if x < 0 then -x else x

/-- The characters of a text from position `start` on, at most `length` of them. Positions outside
the text are moved to its ends. -/
def substring (text : String) (start : Int64) (length : Option Int64) : String :=
  let tail := text.drop start.toInt.toNat
  match length with
  | some count => (tail.take count.toInt.toNat).copy
  | none => tail.copy

/-- The value that a placeholder stands for, and the number of characters after its opening brace
that belong to it. `rest` is the text after that brace. -/
def placeholder? (values : Array String) (rest : List Char) : Option (String × Nat) :=
  let index := rest.takeWhile fun c => c.isDigit || c == '+'
  if (rest.drop index.length).head? = some '\x7d' then
    ((Decimal.word64? index).bind (values[·]?)).map fun value => (value, index.length + 1)
  else
    none

/-- Fills in the placeholders that follow the next `skip` characters. -/
def fillFrom (values : Array String) : Nat → List Char → List Char
  | _, [] => []
  | skip + 1, _ :: rest => fillFrom values skip rest
  | 0, c :: rest =>
    if c = '\x7b' then
      match placeholder? values rest with
      | some (value, length) => value.toList ++ fillFrom values length rest
      | none => c :: fillFrom values 0 rest
    else
      c :: fillFrom values 0 rest

/-- A template with the number of a value between braces replaced by that value. Other braces are
kept, and values are not searched for placeholders. -/
def format (template : String) (values : List String) : String :=
  String.ofList (fillFrom values.toArray 0 template.toList)

/-- Reads an argument as an integer. -/
def integer (text : String) : Except Fault Int64 :=
  match Value.toInt text with
  | .ok value => .ok value
  | .error error => .error (.failed (.value error))

/-- Applies an operation, as `Arithmetic.apply`. -/
def compute (operation : Arithmetic) (x y : Int64) : Except Fault Int64 :=
  match operation.apply x y with
  | .ok value => .ok value
  | .error kind => .error (.failed kind)

/-- The text that a function gives for its arguments. -/
def eval : Keyword → List String → Except Fault String
  | .abs, [x] => do
    return Decimal.ofInt64 (absolute (← integer x))
  | .arithmetic operation, [x, y] => do
    let first ← integer x
    let second ← integer y
    return Decimal.ofInt64 (← compute operation first second)
  | .concat, texts => .ok (String.join texts)
  | .lower, [text] => .ok (Text.lower text)
  | .upper, [text] => .ok (Text.upper text)
  | .trim, [text] => .ok (Text.trim text)
  | .replace, [text, pattern, replacement] => .ok (Text.replaceAll text pattern replacement)
  | .substring, [text, start] => do
    return substring text (← integer start) none
  | .substring, [text, start, length] => do
    let count ← integer length
    return substring text (← integer start) (some count)
  | .format, template :: values => .ok (format template values)
  | .compare comparison, [x, y] => do
    let first ← integer x
    let second ← integer y
    return Value.ofBool (comparison.holds first second)
  | .ask question, [text] => .ok (Value.ofBool (question.holds text))
  | _, _ => .error .defect

end Function

end AtScript
