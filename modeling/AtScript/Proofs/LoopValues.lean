import AtScript.Engine.Loop

/-! # The values of a loop

A loop first fixes its values and then runs its body for each of them.
-/

namespace AtScript.Exec

variable {S : Type} [Store S]

/-- The decimal texts of `count` integers from `first` on. -/
def integersFrom (first : Int) (count : Nat) : List String :=
  (List.range count).map fun (place : Nat) => toString (first + place)

theorem integersFrom_succ (first : Int) (count : Nat) :
    integersFrom first (count + 1) = toString first :: integersFrom (first + 1) count := by
  rw [integersFrom, List.range_succ_eq_map, List.map_cons, List.map_map, integersFrom]
  congr 1
  · simp
  · refine List.map_congr_left fun place _ => ?_
    simp only [Function.comp_apply, Nat.succ_eq_add_one, Int.natCast_add]
    congr 1
    omega

/-- The variable of a loop and the values that its arguments ask for. -/
def loopValues (family : LoopFamily) (span : Span) (arguments : List String) :
    Exec S (String × List String) :=
  match family, arguments with
  | .range, [name, low, high] => do
    let first ← ofValue span (Value.toInt low)
    let last ← ofValue span (Value.toInt high)
    return (name, integersFrom first.toInt (last.toInt + 1 - first.toInt).toNat)
  | .keys, [name, start] => do
    return (name, keyParts (← store) start "")
  | .keys, [name, start, ending] => do
    return (name, keyParts (← store) start ending)
  | .items, [name, list] => do
    let texts ← ofValue span (PackedList.decode (Store.get (← store) list))
    return (name, texts)
  | _, _ => throw .defect

omit [Store S] in
theorem forRange_eq_forEach (run : Runner S) (name : String) (body : List Token) (count : Nat)
    (first : Int) :
    forRange run name body count first = forEach run name body (integersFrom first count) := by
  induction count generalizing first with
  | zero => rfl
  | succ count ih =>
      rw [integersFrom_succ, forRange, forEach]
      simp only [ih]

/-- A loop is run in two parts: its values, and then its body for each of them. -/
theorem iterate_eq (run : Runner S) (family : LoopFamily) (span : Span) (arguments : List String)
    (body : List Token) :
    iterate run family span arguments body =
      (do
        let (name, values) ← loopValues family span arguments
        forEach run name body values) := by
  unfold iterate
  split
  · simp only [loopValues, forRange_eq_forEach, bind_assoc, pure_bind]
  · rfl
  · rfl
  · simp only [loopValues, bind_assoc, pure_bind]
  · rw [loopValues]
    · rfl
    all_goals assumption

/-! ## What the values are -/

/-- The integers from `first` to `last`, both included. -/
def integersBetween (first last : Int64) : List Int64 :=
  (List.range (last.toInt + 1 - first.toInt).toNat).map
    fun (place : Nat) => Int64.ofInt (first.toInt + place)

/-- None of the integers of a range overflows. -/
theorem toInt_integersBetween {first last : Int64} {place : Nat}
    (hplace : place ∈ List.range (last.toInt + 1 - first.toInt).toNat) :
    (Int64.ofInt (first.toInt + place)).toInt = first.toInt + place := by
  have hlow := first.le_toInt
  have hhigh := last.toInt_lt
  rw [List.mem_range] at hplace
  exact Int64.toInt_ofInt_of_le (by omega) (by omega)

theorem integersBetween_pairwise (first last : Int64) :
    (integersBetween first last).Pairwise (· < ·) := by
  rw [integersBetween, List.pairwise_map]
  refine List.pairwise_lt_range.imp_of_mem fun hplace hplace' hlt => ?_
  rw [Int64.lt_iff_toInt_lt, toInt_integersBetween hplace, toInt_integersBetween hplace']
  omega

theorem mem_integersBetween {first last number : Int64} :
    number ∈ integersBetween first last ↔ first ≤ number ∧ number ≤ last := by
  rw [Int64.le_iff_toInt_le, Int64.le_iff_toInt_le, integersBetween, List.mem_map]
  constructor
  · rintro ⟨place, hplace, rfl⟩
    rw [toInt_integersBetween hplace]
    rw [List.mem_range] at hplace
    omega
  · rintro ⟨hlow, hhigh⟩
    have hplace : (number.toInt - first.toInt).toNat ∈
        List.range (last.toInt + 1 - first.toInt).toNat := by
      rw [List.mem_range]
      omega
    refine ⟨_, hplace, ?_⟩
    rw [← Int64.toInt_inj, toInt_integersBetween hplace]
    omega

theorem integersFrom_eq (first last : Int64) :
    integersFrom first.toInt (last.toInt + 1 - first.toInt).toNat =
      (integersBetween first last).map Decimal.ofInt64 := by
  rw [integersFrom, integersBetween, List.map_map]
  refine List.map_congr_left fun place hplace => ?_
  rw [Function.comp_apply, Decimal.ofInt64, toInt_integersBetween hplace]

/-- The variable and the values of a loop with given arguments: the decimal texts of all integers of
a range in increasing order, or what the store holds when the loop starts. -/
inductive LoopRuns (current : S) : LoopFamily → List String → String → List String → Prop
  | range {name low high : String} {first last : Int64} {numbers : List Int64}
      (hfirst : Value.toInt low = .ok first) (hlast : Value.toInt high = .ok last)
      (hincreasing : numbers.Pairwise (· < ·))
      (hmem : ∀ number, number ∈ numbers ↔ first ≤ number ∧ number ≤ last) :
      LoopRuns current .range [name, low, high] name (numbers.map Decimal.ofInt64)
  | keys {name start : String} :
      LoopRuns current .keys [name, start] name (keyParts current start "")
  | keysBetween {name start ending : String} :
      LoopRuns current .keys [name, start, ending] name (keyParts current start ending)
  | items {name list : String} {texts : List String}
      (htexts : PackedList.decode (Store.get current list) = .ok texts) :
      LoopRuns current .items [name, list] name texts

end AtScript.Exec
