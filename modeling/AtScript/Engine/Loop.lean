import AtScript.Engine.Arguments
import AtScript.Engine.Nesting
import AtScript.Text.Replace
import AtScript.Value.PackedList

/-! # Loops

The body of a loop is run once per value. The value takes the place of a dollar sign and the name of
the loop's variable wherever they stand in the tokens of the body.
-/

namespace AtScript.Exec

variable {S : Type} [Store S]

/-- A token with a placeholder replaced. -/
def substituteToken (placeholder value : String) (token : Token) : Token :=
  match token.kind with
  | .call | .word | .quoted =>
    { token with text := Text.replaceAll token.text placeholder value }
  | _ => token

/-- The body of a loop for one value of its variable. -/
def substitute (name value : String) (body : List Token) : List Token :=
  body.map (substituteToken ("$" ++ name) value)

/-- Runs the body of a loop for each of some values. -/
def forEach (run : Runner S) (name : String) (body : List Token) :
    List String → Exec S Unit
  | [] => pure ()
  | value :: rest => do
    sequenceAll run (substitute name value body)
    forEach run name body rest

/-- Runs the body of a loop for `count` integers from `first` on. -/
def forRange (run : Runner S) (name : String) (body : List Token) :
    Nat → Int → Exec S Unit
  | 0, _ => pure ()
  | count + 1, first => do
    sequenceAll run (substitute name (toString first) body)
    forRange run name body count (first + 1)

/-- What stands between a start and an end in the keys of a store that have both, in the order of
the store. -/
def keyParts (current : S) (start ending : String) : List String :=
  (Store.keys current).filterMap fun key =>
    ((Store.afterStart? start key).bind (Text.dropSuffix? ending.toList)).map String.ofList

/-- Runs the body of a loop for the values that its arguments ask for. The values are fixed before
the first iteration. -/
def iterate (run : Runner S) (family : LoopFamily) (span : Span) (values : List String)
    (body : List Token) : Exec S Unit :=
  match family, values with
  | .range, [name, low, high] => do
    let first ← ofValue span (Value.toInt low)
    let last ← ofValue span (Value.toInt high)
    forRange run name body (last.toInt + 1 - first.toInt).toNat first.toInt
  | .keys, [name, start] => do
    forEach run name body (keyParts (← store) start "")
  | .keys, [name, start, ending] => do
    forEach run name body (keyParts (← store) start ending)
  | .items, [name, list] => do
    let texts ← ofValue span (PackedList.decode (Store.get (← store) list))
    forEach run name body texts
  | _, _ => throw .defect

/-- Runs a loop, whose arguments take at most `budget` steps. -/
def loop (budget : Nat) (run : Runner S) (family : LoopFamily) (header : Token)
    (rest : List Token) : Exec S (List Token) := do
  let (values, tokens) ← arguments budget run header rest
  checkArity header (Keyword.loop family).arity values.length
  match Nesting.loopBody? family tokens with
  | none => fail (.imbalance (.missingEnd family)) header.span
  | some (body, after) =>
    iterate run family header.span values body
    return after

end AtScript.Exec
