/-! # The random stream

Random words come from the ChaCha stream cipher with twelve rounds, keyed from a 64-bit seed. A
generator is a key and a position in the stream, so equal seeds give equal streams.
-/

namespace AtScript.Random

/-- Rotates a word to the left. Shifts count modulo 32, so every `count` is fine. -/
def rotateLeft (word count : UInt32) : UInt32 :=
  (word <<< count) ||| (word >>> (32 - count))

/-- Rotates a word to the right. -/
def rotateRight (word count : UInt32) : UInt32 :=
  (word >>> count) ||| (word <<< (32 - count))

/-- One quarter round on four words of the cipher state. -/
def quarterRound (state : Vector UInt32 16) (i j k l : Fin 16) : Vector UInt32 16 :=
  let a := state[i] + state[j]
  let d := rotateLeft (state[l] ^^^ a) 16
  let c := state[k] + d
  let b := rotateLeft (state[j] ^^^ c) 12
  let a := a + b
  let d := rotateLeft (d ^^^ a) 8
  let c := c + d
  let b := rotateLeft (b ^^^ c) 7
  (((state.set i a).set j b).set k c).set l d

/-- Two rounds: one along the columns of the state and one along its diagonals. -/
def doubleRound (state : Vector UInt32 16) : Vector UInt32 16 :=
  let state := quarterRound state 0 4 8 12
  let state := quarterRound state 1 5 9 13
  let state := quarterRound state 2 6 10 14
  let state := quarterRound state 3 7 11 15
  let state := quarterRound state 0 5 10 15
  let state := quarterRound state 1 6 11 12
  let state := quarterRound state 2 7 8 13
  quarterRound state 3 4 9 14

/-- The cipher state for a block: four constant words, the key, a 64-bit block number and two words
of zero. -/
def blockState (key : Vector UInt32 8) (block : Nat) : Vector UInt32 16 :=
  Vector.mk #[0x61707865, 0x3320646e, 0x79622d32, 0x6b206574,
    key[0], key[1], key[2], key[3], key[4], key[5], key[6], key[7],
    UInt32.ofNat block, UInt32.ofNat (block >>> 32), 0, 0] rfl

/-- The sixteen words of a block of the stream. -/
def blockWords (key : Vector UInt32 8) (block : Nat) : Vector UInt32 16 :=
  let start := blockState key block
  let mixed := Nat.repeat doubleRound 6 start
  Vector.zipWith (· + ·) mixed start

/-- One step of the linear generator that spreads a seed over the key. -/
def seedStep (state : UInt64) : UInt64 :=
  state * 6364136223846793005 + 11634580027462260723

/-- The key word that a state of the linear generator gives. -/
def seedWord (state : UInt64) : UInt32 :=
  let mixed := (((state >>> 18) ^^^ state) >>> 27).toUInt32
  rotateRight mixed (state >>> 59).toUInt32

/-- The key of a seed. -/
def keyOfSeed (seed : UInt64) : Vector UInt32 8 :=
  Vector.ofFn fun i => seedWord (Nat.repeat seedStep (i.val + 1) seed)

/-- A place in a random stream. -/
structure Generator where
  key : Vector UInt32 8
  /-- How many 64-bit words have been drawn. -/
  position : Nat
deriving Repr, DecidableEq

namespace Generator

/-- The generator at the start of the stream of a seed. -/
def ofSeed (seed : UInt64) : Generator :=
  ⟨keyOfSeed seed, 0⟩

/-- The 64-bit word at the generator's place: the next two words of the stream, the low one
first. -/
def word (generator : Generator) : UInt64 :=
  let words := blockWords generator.key (generator.position / 8)
  let place : Fin 8 := Fin.ofNat 8 generator.position
  let low := words[2 * place.val]
  let high := words[2 * place.val + 1]
  low.toUInt64 ||| (high.toUInt64 <<< 32)

/-- The generator after one more word. -/
def advance (generator : Generator) : Generator :=
  { generator with position := generator.position + 1 }

end Generator

end AtScript.Random
