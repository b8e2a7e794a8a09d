/-! # Decimal numbers

Numbers are read from ASCII digits. Leading zeros are allowed, separators are not. All numbers that
are read fit 64 bits, so reading stops as soon as one grows beyond.
-/

namespace AtScript.Decimal

/-- Reads the digits that follow those of `value`, as long as the number fits 64 bits. -/
def wordFrom? (value : Nat) : List Char → Option Nat
  | [] => some value
  | c :: rest =>
    if c.isDigit then
      let next := 10 * value + (c.toNat - '0'.toNat)
      if next < UInt64.size then wordFrom? next rest else none
    else
      none

/-- Reads one or more digits of a number that fits 64 bits. -/
def natural? (chars : List Char) : Option Nat :=
  if chars.isEmpty then none else wordFrom? 0 chars

/-- Reads digits after an optional sign. -/
def integer? : List Char → Option Int
  | '-' :: digits => (natural? digits).map fun value => -(value : Int)
  | '+' :: digits => (natural? digits).map fun value => (value : Int)
  | digits => (natural? digits).map fun value => (value : Int)

/-- Reads an integer that fits 64 bits in two's complement. -/
def int64? (chars : List Char) : Option Int64 :=
  match integer? chars with
  | some value =>
    if Int64.minValue.toInt ≤ value ∧ value ≤ Int64.maxValue.toInt then some (Int64.ofInt value)
    else none
  | none => none

/-- Reads a natural number that fits 64 bits, after an optional plus sign. -/
def word64? : List Char → Option Nat
  | '+' :: digits => natural? digits
  | digits => natural? digits

/-- The decimal text of a 64-bit integer. -/
def ofInt64 (value : Int64) : String :=
  toString value.toInt

end AtScript.Decimal
