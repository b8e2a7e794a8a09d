import AtScript.Proofs.Arithmetic
import Mathlib.Algebra.Order.Floor.Div
import Mathlib.Order.Interval.Finset.Nat

/-! # Random numbers are fair

The words that are accepted for a bound form, for each number below the bound, a row of
consecutive words, and all these rows have the same length. So each number is drawn with the same
chance. Rejected words only move the generator on.
-/

namespace AtScript

namespace Random

/-! ## Accepted words -/

/-- The number of zeros in front of a number that is written with 64 binary digits. -/
def leadingZeros (bound : Nat) : Nat :=
  (BitVec.ofNat 64 bound).clz.toNat

variable {bound : Nat}

theorem log2_add_leadingZeros (hpos : 0 < bound) (hsize : bound < UInt64.size) :
    bound.log2 + leadingZeros bound = 63 := by
  let bits := BitVec.ofNat 64 bound
  have hbits : bits.toNat = bound := (BitVec.toNat_ofNat bound 64).trans (Nat.mod_eq_of_lt hsize)
  have hne : bits ≠ 0#64 := by
    intro hzero
    rw [hzero] at hbits
    exact Nat.ne_of_lt hpos hbits
  have hzeros : bits.clz.toNat < 64 := BitVec.lt_def.mp (BitVec.clz_lt_iff_ne_zero.mpr hne)
  have hlower : 2 ^ (63 - bits.clz.toNat) ≤ bits.toNat :=
    BitVec.two_pow_sub_clz_le_toNat_of_ne_zero (by decide) hne
  have hupper : bits.toNat < 2 ^ (64 - bits.clz.toNat) := BitVec.toNat_lt_two_pow_sub_clz
  rw [hbits] at hlower hupper
  have hlog : bound.log2 = 63 - bits.clz.toNat := by
    rw [Nat.log2_eq_iff (Nat.ne_of_gt hpos)]
    refine ⟨hlower, ?_⟩
    rwa [show 63 - bits.clz.toNat + 1 = 64 - bits.clz.toNat by omega]
  rw [hlog]
  exact Nat.sub_add_cancel (Nat.le_of_lt_succ hzeros)

/-- Shifting out the zeros keeps a number within 64 binary digits. -/
theorem mul_two_pow_leadingZeros_le (hpos : 0 < bound) (hsize : bound < UInt64.size) :
    bound * 2 ^ leadingZeros bound ≤ UInt64.size := by
  have hlog := log2_add_leadingZeros hpos hsize
  have hpower : 2 ^ (bound.log2 + 1) * 2 ^ leadingZeros bound = UInt64.size := by
    rw [← Nat.pow_add, show bound.log2 + 1 + leadingZeros bound = 64 by omega]
  rw [← hpower]
  exact Nat.mul_le_mul_right _ (Nat.le_of_lt Nat.lt_log2_self)

/-- A word is accepted when the low half of its product with the bound does not exceed the bound
without the zeros in front, less one. The high half is the number. -/
theorem accept?_eq (hpos : 0 < bound) (hsize : bound < UInt64.size) (word : Nat) :
    accept? bound word =
      if word * bound % UInt64.size ≤ (bound <<< leadingZeros bound) - 1 then
        some (word * bound / UInt64.size)
      else none := by
  have hlog := log2_add_leadingZeros hpos hsize
  rw [accept?, threshold, show 63 - bound.log2 = leadingZeros bound by omega]

/-- The products that give a number are those that exceed it by less than the shifted bound. -/
theorem accept?_eq_some_iff (hpos : 0 < bound) (hsize : bound < UInt64.size) (word number : Nat) :
    accept? bound word = some number ↔
      UInt64.size * number ≤ bound * word ∧
        bound * word < UInt64.size * number + bound * 2 ^ leadingZeros bound := by
  have hwindow := mul_two_pow_leadingZeros_le hpos hsize
  have hwidth : 0 < bound * 2 ^ leadingZeros bound := Nat.mul_pos hpos (Nat.two_pow_pos _)
  have hproduct := Nat.div_add_mod (bound * word) UInt64.size
  have hlow := Nat.mod_lt (bound * word) (show 0 < UInt64.size by decide)
  rw [accept?_eq hpos hsize, Nat.shiftLeft_eq, Nat.mul_comm word]
  constructor
  · intro haccept
    split at haccept
    next hle =>
      cases haccept
      omega
    next => cases haccept
  · rintro ⟨hlower, hupper⟩
    have hnumber : bound * word / UInt64.size = number := by
      apply Nat.div_eq_of_lt_le
      · rwa [Nat.mul_comm number]
      · rw [Nat.mul_comm (number + 1), Nat.mul_succ]
        omega
    rw [hnumber] at hproduct ⊢
    rw [if_pos (by omega)]

/-- The 64-bit words that give a number. -/
def wordsFor (bound number : Nat) : Finset Nat :=
  (Finset.range UInt64.size).filter fun word => accept? bound word = some number

/-- They follow one another. -/
theorem wordsFor_eq_Ico (hsize : bound < UInt64.size) {number : Nat} (hnumber : number < bound) :
    wordsFor bound number =
      Finset.Ico (UInt64.size * number ⌈/⌉ bound)
        (UInt64.size * number ⌈/⌉ bound + 2 ^ leadingZeros bound) := by
  have hpos : 0 < bound := Nat.zero_lt_of_lt hnumber
  have hwindow := mul_two_pow_leadingZeros_le hpos hsize
  ext word
  have hlower : UInt64.size * number ⌈/⌉ bound ≤ word ↔ UInt64.size * number ≤ bound * word :=
    ceilDiv_le_iff_le_mul hpos
  -- A word stands before the end when the one that many places earlier stands before the start.
  have hupper : word < UInt64.size * number ⌈/⌉ bound + 2 ^ leadingZeros bound ↔
      bound * word < UInt64.size * number + bound * 2 ^ leadingZeros bound := by
    rcases Nat.lt_or_ge word (2 ^ leadingZeros bound) with hless | hmore
    · have hproduct := Nat.mul_lt_mul_of_pos_left hless hpos
      exact iff_of_true (by omega) (by omega)
    · obtain ⟨earlier, rfl⟩ := Nat.exists_eq_add_of_le' hmore
      rw [Nat.add_lt_add_iff_right, Nat.mul_add, Nat.add_lt_add_iff_right, ← not_le, ← not_le,
        ceilDiv_le_iff_le_mul hpos]
  rw [wordsFor, Finset.mem_filter, Finset.mem_range, accept?_eq_some_iff hpos hsize,
    Finset.mem_Ico, hlower, hupper, and_iff_right_iff_imp]
  rintro ⟨-, hless⟩
  have hend : UInt64.size * number + UInt64.size ≤ bound * UInt64.size := by
    rw [← Nat.mul_succ, Nat.mul_comm]
    exact Nat.mul_le_mul_right _ hnumber
  exact Nat.lt_of_mul_lt_mul_left (hless.trans_le (by omega))

/-- Every number below the bound is given by equally many words. -/
theorem card_wordsFor (hsize : bound < UInt64.size) {number : Nat} (hnumber : number < bound) :
    (wordsFor bound number).card = 2 ^ leadingZeros bound := by
  rw [wordsFor_eq_Ico hsize hnumber, Nat.card_Ico, Nat.add_sub_cancel_left]

/-! ## Drawing until a word is accepted -/

/-- Drawing from a place in the stream on, until a word is accepted, gives a number and the place
after that word. -/
inductive Draws (bound : Nat) : Generator → Nat → Generator → Prop
  | accepted {generator : Generator} {number : Nat}
      (haccept : accept? bound generator.word.toNat = some number) :
      Draws bound generator number generator.advance
  | rejected {generator after : Generator} {number : Nat}
      (hreject : accept? bound generator.word.toNat = none)
      (hrest : Draws bound generator.advance number after) : Draws bound generator number after

/-- A generator after some more words. -/
def Generator.skip (generator : Generator) (count : Nat) : Generator :=
  { generator with position := generator.position + count }

theorem Generator.skip_advance (generator : Generator) (count : Nat) :
    generator.advance.skip count = generator.skip (count + 1) := by
  simp only [skip, advance, Nat.add_assoc, Nat.add_comm 1]

/-- A block of the stream depends on its number modulo the largest block number alone. -/
theorem blockState_add_size (key : Vector UInt32 8) (block : Nat) :
    blockState key (block + UInt64.size) = blockState key block := by
  have hsize : UInt64.size = 2 ^ 64 := rfl
  have hlow : UInt32.ofNat (block + UInt64.size) = UInt32.ofNat block := by
    apply UInt32.toNat_inj.mp
    simp only [UInt32.toNat_ofNat', hsize]
    omega
  have hhigh : UInt32.ofNat ((block + UInt64.size) >>> 32) = UInt32.ofNat (block >>> 32) := by
    apply UInt32.toNat_inj.mp
    simp only [UInt32.toNat_ofNat', Nat.shiftRight_eq_div_pow, hsize]
    omega
  unfold blockState
  congr 17

/-- The stream repeats after a whole cycle. -/
theorem Generator.word_skip_cycle (generator : Generator) :
    (generator.skip cycle).word = generator.word := by
  have hblock : (generator.position + cycle) / 8 = generator.position / 8 + UInt64.size :=
    Nat.add_mul_div_left _ _ (by decide)
  have hplace : Fin.ofNat 8 (generator.position + cycle) = Fin.ofNat 8 generator.position :=
    Fin.ext (Nat.add_mul_mod_self_left _ _ _)
  have hwords : blockWords generator.key ((generator.position + cycle) / 8) =
      blockWords generator.key (generator.position / 8) := by
    rw [hblock, blockWords, blockState_add_size, blockWords]
  exact congrArg₂ (fun (words : Vector UInt32 16) (place : Fin 8) =>
    words[2 * place.val].toUInt64 ||| (words[2 * place.val + 1].toUInt64 <<< 32)) hwords hplace

theorem Draws.exists_skip {generator after : Generator} {number : Nat}
    (hdraws : Draws bound generator number after) :
    ∃ count, after = generator.skip (count + 1) ∧
      accept? bound (generator.skip count).word.toNat = some number ∧
      ∀ earlier < count, accept? bound (generator.skip earlier).word.toNat = none := by
  induction hdraws with
  | accepted haccept =>
      exact ⟨0, rfl, haccept, fun earlier hless => absurd hless (Nat.not_lt_zero earlier)⟩
  | @rejected generator after number hreject hrest ih =>
      obtain ⟨count, hafter, haccept, hearlier⟩ := ih
      rw [Generator.skip_advance] at hafter haccept
      refine ⟨count + 1, hafter, haccept, fun earlier hless => ?_⟩
      cases earlier with
      | zero => exact hreject
      | succ earlier =>
          have hnone := hearlier earlier (Nat.lt_of_succ_lt_succ hless)
          rwa [Generator.skip_advance] at hnone

theorem number_eq_of_accept? {word number : Nat} (haccept : accept? bound word = some number) :
    number = word * bound / UInt64.size := by
  rw [accept?] at haccept
  split at haccept
  next =>
    cases haccept
    rfl
  next => cases haccept

theorem belowWithin_of_accept? {generator : Generator} {number : Nat}
    (haccept : accept? bound generator.word.toNat = some number) (tries : Nat) :
    belowWithin bound tries generator = (number, generator.advance) := by
  cases tries with
  | zero => rw [belowWithin, number_eq_of_accept? haccept]
  | succ tries => rw [belowWithin, haccept]

theorem belowWithin_skip {count tries : Nat} (hcount : count ≤ tries) {generator : Generator}
    (hearlier : ∀ earlier < count, accept? bound (generator.skip earlier).word.toNat = none) :
    belowWithin bound tries generator =
      belowWithin bound (tries - count) (generator.skip count) := by
  induction count generalizing tries generator with
  | zero => rfl
  | succ count ih =>
      obtain ⟨tries, rfl⟩ : ∃ less, tries = less + 1 := ⟨tries - 1, by omega⟩
      have hfirst : accept? bound generator.word.toNat = none := hearlier 0 (Nat.succ_pos count)
      have hrest : ∀ earlier < count,
          accept? bound (generator.advance.skip earlier).word.toNat = none := by
        intro earlier hless
        rw [Generator.skip_advance]
        exact hearlier (earlier + 1) (Nat.succ_lt_succ hless)
      rw [belowWithin, hfirst]
      dsimp only
      rw [ih (Nat.le_of_succ_le_succ hcount) hrest, Generator.skip_advance, Nat.add_sub_add_right]

/-- A word that is ever accepted is among those of one cycle, so drawing finds it. -/
theorem below_eq_of_draws {generator after : Generator} {number : Nat}
    (hdraws : Draws bound generator number after) : below bound generator = (number, after) := by
  obtain ⟨count, rfl, haccept, hearlier⟩ := hdraws.exists_skip
  have hcount : count ≤ cycle := by
    by_contra hlate
    obtain ⟨earlier, rfl⟩ := Nat.exists_eq_add_of_le' (Nat.le_of_not_le hlate)
    have hnone := hearlier earlier (Nat.lt_add_of_pos_right (by decide))
    have hword : (generator.skip (earlier + cycle)).word = (generator.skip earlier).word := by
      rw [← (generator.skip earlier).word_skip_cycle]
      simp only [Generator.skip, Nat.add_assoc]
    rw [hword, hnone] at haccept
    cases haccept
  rw [below, belowWithin_skip hcount hearlier, belowWithin_of_accept? haccept]
  rfl

theorem belowWithin_lt (hpos : 0 < bound) (tries : Nat) (generator : Generator) :
    (belowWithin bound tries generator).1 < bound := by
  have hword (word : UInt64) : word.toNat * bound / UInt64.size < bound := by
    apply Nat.div_lt_of_lt_mul
    exact Nat.mul_lt_mul_of_pos_right word.toNat_lt_size hpos
  induction tries generalizing generator with
  | zero => exact hword generator.word
  | succ tries ih =>
      rw [belowWithin]
      split
      next number haccept =>
        rw [number_eq_of_accept? haccept]
        exact hword generator.word
      next => exact ih generator.advance

theorem below_lt (hpos : 0 < bound) (generator : Generator) : (below bound generator).1 < bound :=
  belowWithin_lt hpos cycle generator

/-! ## Integers and events -/

theorem integerBelow_of_nonpos {limit : Int64} (hlimit : limit ≤ 0) (generator : Generator) :
    integerBelow limit generator = (0, generator) := by
  rw [integerBelow, if_pos hlimit]

theorem toNat_pos {limit : Int64} (hlimit : 0 < limit) : 0 < limit.toInt.toNat := by
  rw [Int64.lt_iff_toInt_lt] at hlimit
  exact Int.lt_toNat.mpr hlimit

theorem toNat_lt (limit : Int64) : limit.toInt.toNat < 2 ^ 63 := by
  have hlimit := limit.toInt_lt
  omega

theorem toInt_integerBelow {limit : Int64} (hlimit : 0 < limit) (generator : Generator) :
    (integerBelow limit generator).1.toInt = (below limit.toInt.toNat generator).1 := by
  have hless := below_lt (toNat_pos hlimit) generator
  rw [integerBelow, if_neg (Int64.not_le.mpr hlimit)]
  exact Int64.toInt_ofNat_of_lt (hless.trans (toNat_lt limit))

theorem event_eq (percent : Int64) (generator : Generator) :
    (event percent generator).1 = decide (((below 100 generator).1 : Int) < percent.toInt) := by
  have hless := below_lt (show 0 < 100 by decide) generator
  rw [event, ← Int64.toInt_ofNat_of_lt (hless.trans (by decide))]
  exact decide_eq_decide.mpr Int64.lt_iff_toInt_lt

end Random

/-! ## What scripts draw -/

namespace Engine

variable {S : Type} [Store S] {engine : Engine S}

/-- A script that calls a keyword with one integer. -/
theorem run_integerCall (hlimit : Frame.exceededLimit? ⟨engine, ""⟩ = none) {keyword : Keyword}
    (hcall : keyword.Callable) (harity : keyword.arity.accepts 1 = true)
    {action : Int64 → Exec S Unit}
    (hbuiltin : ∀ (run : Runner S) (text : String), Exec.builtin run keyword default [text] =
      Exec.ofFault default (Function.integer text) >>= action)
    {argument : Literal} {number : Int64} (hargument : Value.toInt argument.value = .ok number)
    {after : Engine S} {out : String}
    (haction : action number (Frame.enter ⟨engine, ""⟩) = .ok () (Frame.enter ⟨after, out⟩)) :
    engine.run (keyword.spelling ++ argument.text ++ ")") = ⟨after, some out, .ok ()⟩ := by
  have hfits : Expression.Fits 8 keyword (.literal argument) [] :=
    ⟨hcall, harity, by simp, by simp [Expression.height]⟩
  have htext : Expression.callText keyword (.literal argument) [] =
      keyword.spelling ++ argument.text ++ ")" := Expression.callText_one _ _
  rw [← htext]
  refine run_callText hlimit eight_lt_ampleFuel hfits fun run => ?_
  have hrun : Expression.call run keyword [.literal argument] (Frame.enter ⟨engine, ""⟩) =
      Exec.builtin run keyword default [argument.value] (Frame.enter ⟨engine, ""⟩) := rfl
  rw [hrun, hbuiltin, Function.integer_eq_ok hargument]
  exact haction

/-- A script writes the integer that is drawn and leaves the generator behind it. -/
theorem run_random (hlimit : Frame.exceededLimit? ⟨engine, ""⟩ = none) {argument : Literal}
    {limit : Int64} (hargument : Value.toInt argument.value = .ok limit) :
    engine.run ("@rnd(" ++ argument.text ++ ")") =
      ⟨{ engine with generator := (Random.integerBelow limit engine.generator).2 },
        some (Decimal.ofInt64 (Random.integerBelow limit engine.generator).1), .ok ()⟩ := by
  have hspelling : Keyword.random.spelling = "@rnd(" := by decide +kernel
  have hcall : Keyword.random.Callable := by decide +kernel
  -- What is drawn must not be computed.
  generalize hdrawn : Random.integerBelow limit engine.generator = drawn
  have hframe : Random.integerBelow limit (Frame.enter ⟨engine, ""⟩).engine.generator = drawn :=
    hdrawn
  rw [← hspelling]
  refine run_integerCall hlimit hcall rfl (fun _ _ => rfl) hargument ?_
  rw [Primitive.random_apply, hframe, ← @String.empty_append (Decimal.ofInt64 drawn.1)]
  rfl

/-- A script writes whether the event happens and leaves the generator behind the draw. -/
theorem run_chance (hlimit : Frame.exceededLimit? ⟨engine, ""⟩ = none) {argument : Literal}
    {percent : Int64} (hargument : Value.toInt argument.value = .ok percent) :
    engine.run ("@rand(" ++ argument.text ++ ")") =
      ⟨{ engine with generator := (Random.event percent engine.generator).2 },
        some (Value.ofBool (Random.event percent engine.generator).1), .ok ()⟩ := by
  have hspelling : Keyword.chance.spelling = "@rand(" := by decide +kernel
  have hcall : Keyword.chance.Callable := by decide +kernel
  generalize hdrawn : Random.event percent engine.generator = drawn
  have hframe : Random.event percent (Frame.enter ⟨engine, ""⟩).engine.generator = drawn := hdrawn
  rw [← hspelling]
  refine run_integerCall hlimit hcall rfl (fun _ _ => rfl) hargument ?_
  rw [Primitive.chance_apply, hframe, ← @String.empty_append (Value.ofBool drawn.1)]
  rfl

/-- Take an engine that is not nested beyond its limit, as none is between two runs. A random
integer below a limit that is not positive is zero, and nothing is drawn. Below a positive limit it
is one of the integers from zero to below the limit, the one that the first accepted word gives. A
word is accepted when the low half of its product with the limit is at most the limit shifted left
by its leading zeros, less one, and of all 64-bit words equally many give each of these integers. An
event with a chance of at most zero percent never happens, one with at least a hundred always does,
and one that happens would have happened with any higher chance. -/
theorem random_numbers_are_fair (engine : Engine S)
    (hlimit : ∀ limit, engine.options.maxDepth = some limit → engine.depth ≤ limit) :
    (∀ (argument : Literal) (limit : Int64), Value.toInt argument.value = .ok limit →
      (limit ≤ 0 →
        engine.run ("@rnd(" ++ argument.text ++ ")") = ⟨engine, some "0", .ok ()⟩) ∧
      (0 < limit → ∃ (number : Int64) (after : Random.Generator),
        engine.run ("@rnd(" ++ argument.text ++ ")") =
          ⟨{ engine with generator := after }, some (Decimal.ofInt64 number), .ok ()⟩ ∧
        0 ≤ number ∧ number < limit ∧
        ∀ drawn place, Random.Draws limit.toInt.toNat engine.generator drawn place →
          number.toInt = drawn ∧ after = place)) ∧
    (∀ bound : Nat, 0 < bound → bound < 2 ^ 64 →
      (∀ word : Nat, Random.accept? bound word =
        if word * bound % 2 ^ 64 ≤ (bound <<< Random.leadingZeros bound) - 1 then
          some (word * bound / 2 ^ 64)
        else none) ∧
      ∀ number < bound, (Random.wordsFor bound number).card = 2 ^ Random.leadingZeros bound) ∧
    (∀ (argument : Literal) (percent : Int64), Value.toInt argument.value = .ok percent →
      ∃ (happens : Bool) (after : Random.Generator),
        engine.run ("@rand(" ++ argument.text ++ ")") =
          ⟨{ engine with generator := after }, some (Value.ofBool happens), .ok ()⟩ ∧
        (percent ≤ 0 → happens = false) ∧ (100 ≤ percent → happens = true)) ∧
    ∀ (argument other : Literal) (percent more : Int64),
      Value.toInt argument.value = .ok percent → Value.toInt other.value = .ok more →
      percent ≤ more → (engine.run ("@rand(" ++ argument.text ++ ")")).output = some "true" →
      (engine.run ("@rand(" ++ other.text ++ ")")).output = some "true" := by
  have hframe : Frame.exceededLimit? ⟨engine, ""⟩ = none :=
    Frame.exceededLimit?_eq_none_iff.mpr hlimit
  have hzero : Decimal.ofInt64 0 = "0" := by decide +kernel
  refine ⟨fun argument limit hargument => ⟨fun hnone => ?_, fun hsome => ?_⟩,
    fun bound hpos hsize => ⟨Random.accept?_eq hpos hsize, fun number hnumber => ?_⟩,
    fun argument percent hargument => ?_,
    fun argument other percent more hargument hother hmore => ?_⟩
  · rw [run_random hframe hargument, Random.integerBelow_of_nonpos hnone, hzero]
  · have hnumber := Random.toInt_integerBelow hsome engine.generator
    have hless := Random.below_lt (Random.toNat_pos hsome) engine.generator
    refine ⟨_, _, run_random hframe hargument, ?_, ?_, fun drawn place hdraws => ?_⟩
    · rw [Int64.le_iff_toInt_le, hnumber]
      exact Int.natCast_nonneg _
    · rw [Int64.lt_iff_toInt_lt, hnumber]
      omega
    · rw [hnumber, Random.integerBelow, if_neg (Int64.not_le.mpr hsome)]
      rw [Random.below_eq_of_draws hdraws]
      exact ⟨rfl, rfl⟩
  · exact Random.card_wordsFor hsize hnumber
  · have hless := Random.below_lt (show 0 < 100 by decide) engine.generator
    refine ⟨_, _, run_chance hframe hargument, fun hnever => ?_, fun halways => ?_⟩
    · rw [Int64.le_iff_toInt_le, Int64.toInt_zero] at hnever
      rw [Random.event_eq, decide_eq_false_iff_not]
      omega
    · rw [Int64.le_iff_toInt_le] at halways
      have hhundred : (100 : Int64).toInt = 100 := rfl
      rw [Random.event_eq, decide_eq_true_iff]
      omega
  · intro hhappens
    have htrue (happens : Bool) : some (Value.ofBool happens) = some "true" ↔ happens = true := by
      cases happens <;> decide
    rw [run_chance hframe hargument, htrue, Random.event_eq, decide_eq_true_iff] at hhappens
    rw [run_chance hframe hother, htrue, Random.event_eq, decide_eq_true_iff]
    rw [Int64.le_iff_toInt_le] at hmore
    exact hhappens.trans_le hmore

/-- With seed 42 the number 526 is drawn below a thousand, as `2 ^ 54` words would have it. The
first draw below a hundred is 52, so an event with a chance of 53 percent happens. -/
theorem first_draws_of_seed :
    let engine := Engine.new Dictionary.empty { maxDepth := some 0, seed := 42 }
    (∀ limit, engine.options.maxDepth = some limit → engine.depth ≤ limit) ∧
      engine.run "@rnd(-3)" = ⟨engine, some "0", .ok ()⟩ ∧
      Random.Draws 1000 engine.generator 526 engine.generator.advance ∧
      engine.run "@rnd(1000)" =
        ⟨{ engine with generator := engine.generator.advance }, some "526", .ok ()⟩ ∧
      (Random.wordsFor 1000 526).card = 2 ^ 54 ∧
      (engine.run "@rand(0)").output = some "false" ∧
      (engine.run "@rand(53)").output = some "true" ∧
      (engine.run "@rand(60)").output = some "true" ∧
      (engine.run "@rand(100)").output = some "true" := by
  intro engine
  have hlimit : ∀ limit, engine.options.maxDepth = some limit → engine.depth ≤ limit :=
    fun limit _ => Nat.zero_le limit
  have hdraws : Random.Draws 1000 engine.generator 526 engine.generator.advance :=
    .accepted (by decide +kernel)
  have hpercent : Random.Draws 100 engine.generator 52 engine.generator.advance :=
    .accepted (by decide +kernel)
  obtain ⟨hintegers, hwords, hevents, hhigher⟩ := random_numbers_are_fair engine hlimit
  have hargument (number : Int64) : Value.toInt (Literal.ofInt64 number).value = .ok number :=
    Value.toInt_ofInt64 number
  have htext : (Literal.ofInt64 (-3)).text = "-3" ∧ (Literal.ofInt64 0).text = "0" ∧
      (Literal.ofInt64 53).text = "53" ∧ (Literal.ofInt64 60).text = "60" ∧
      (Literal.ofInt64 100).text = "100" ∧ (Literal.ofInt64 1000).text = "1000" := by
    decide +kernel
  obtain ⟨hthree, hzero, hfiftyThree, hsixty, hhundred, hthousand⟩ := htext
  have hnone := (hintegers _ _ (hargument (-3))).1 (by decide)
  obtain ⟨number, after, hrun, -, -, hnumber⟩ := (hintegers _ _ (hargument 1000)).2 (by decide)
  obtain ⟨hdrawn, rfl⟩ := hnumber 526 _ hdraws
  obtain rfl : number = 526 := Int64.toInt_inj.mp hdrawn
  obtain ⟨never, _, hrunNever, hnever, -⟩ := hevents _ _ (hargument 0)
  obtain rfl := hnever (by decide)
  obtain ⟨always, _, hrunAlways, -, halways⟩ := hevents _ _ (hargument 100)
  obtain rfl := halways (by decide)
  have hhappens : (engine.run ("@rand(" ++ (Literal.ofInt64 53).text ++ ")")).output =
      some "true" := by
    have hframe : Frame.exceededLimit? ⟨engine, ""⟩ = none :=
      Frame.exceededLimit?_eq_none_iff.mpr hlimit
    have hevent : (Random.event 53 engine.generator).1 = true := by
      rw [Random.event_eq, Random.below_eq_of_draws hpercent]
      decide
    rw [run_chance hframe (hargument 53), hevent]
    rfl
  have hmore := hhigher _ _ _ _ (hargument 53) (hargument 60) (by decide) hhappens
  rw [hthree] at hnone
  rw [hthousand, show Decimal.ofInt64 526 = "526" by decide +kernel] at hrun
  rw [hzero] at hrunNever
  rw [hhundred] at hrunAlways
  rw [hfiftyThree] at hhappens
  rw [hsixty] at hmore
  refine ⟨hlimit, hnone, hdraws, hrun, (hwords 1000 (by decide) (by decide)).2 526 (by decide),
    ?_, hhappens, hmore, ?_⟩
  · exact congrArg Outcome.output hrunNever
  · exact congrArg Outcome.output hrunAlways

end Engine

end AtScript
