import AtScript.Random.Stream

/-! # Random numbers below a bound

A 64-bit word is turned into a number below `bound` by multiplication: the high half of the product
is the number. Words whose product has a low half above a threshold are rejected, which leaves
equally many words for each number.
-/

namespace AtScript.Random

/-- The largest low half that is accepted: one less than the bound shifted left until it fills 64
bits. -/
def threshold (bound : Nat) : Nat :=
  (bound <<< (63 - bound.log2)) - 1

/-- The number that a word gives, if the word is accepted. -/
def accept? (bound word : Nat) : Option Nat :=
  if word * bound % UInt64.size ≤ threshold bound then some (word * bound / UInt64.size) else none

/-- Draws words until one is accepted, rejecting at most `tries` of them. -/
def belowWithin (bound : Nat) : Nat → Generator → Nat × Generator
  | 0, generator => (generator.word.toNat * bound / UInt64.size, generator.advance)
  | tries + 1, generator =>
    match accept? bound generator.word.toNat with
    | some number => (number, generator.advance)
    | none => belowWithin bound tries generator.advance

/-- The number of words after which the stream repeats: eight for each block number. -/
def cycle : Nat := 8 * UInt64.size

/-- A random number below a bound, each with the same chance. Rejection stops after a whole cycle of
the stream, since nothing new can follow. -/
def below (bound : Nat) (generator : Generator) : Nat × Generator :=
  belowWithin bound cycle generator

/-- A random integer from zero to below `limit`, or zero without a draw when there is none. -/
def integerBelow (limit : Int64) (generator : Generator) : Int64 × Generator :=
  if limit ≤ 0 then (0, generator)
  else
    let (number, after) := below limit.toInt.toNat generator
    (Int64.ofNat number, after)

/-- An event with a chance of `percent` in a hundred. -/
def event (percent : Int64) (generator : Generator) : Bool × Generator :=
  let (number, after) := below 100 generator
  (Int64.ofNat number < percent, after)

end AtScript.Random
