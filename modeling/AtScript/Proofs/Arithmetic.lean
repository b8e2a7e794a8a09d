import AtScript.Proofs.Expressions
import AtScript.Proofs.Numerals

/-! # Integer arithmetic

Scripts compute with 64-bit integers, and between two calls an integer is its decimal text. The
operations are the exact ones with their results wrapped around. So a command that changes a stored
integer does the same as setting the key to what the function of that operation gives, and a
quotient and a remainder give back the number that was divided.
-/

namespace AtScript

namespace Arithmetic

/-- The result of an operation on integers of any size, if there is one. Quotients are rounded
toward zero. -/
def unbounded? : Arithmetic → Int → Int → Option Int
  | .add, x, y => some (x + y)
  | .sub, x, y => some (x - y)
  | .mul, x, y => some (x * y)
  | .div, x, y => if y = 0 then none else some (x.tdiv y)
  | .mod, x, y => if y = 0 then none else some (x.tmod y)

theorem ofInt_tdiv_toInt (x y : Int64) : Int64.ofInt (x.toInt.tdiv y.toInt) = x / y := by
  rw [Int64.ofInt_tdiv x.le_toInt x.toInt_le y.le_toInt y.toInt_le, Int64.ofInt_toInt,
    Int64.ofInt_toInt]

theorem ofInt_tmod_toInt (x y : Int64) : Int64.ofInt (x.toInt.tmod y.toInt) = x % y := by
  rw [Int64.ofInt_tmod x.le_toInt x.toInt_le y.le_toInt y.toInt_le, Int64.ofInt_toInt,
    Int64.ofInt_toInt]

theorem toInt_eq_zero_iff (y : Int64) : y.toInt = 0 ↔ y = 0 := by
  rw [← Int64.toInt_zero, Int64.toInt_inj]

/-- An operation on 64-bit integers wraps the exact result around. -/
theorem apply_eq (operation : Arithmetic) (x y : Int64) :
    operation.apply x y =
      match operation.unbounded? x.toInt y.toInt with
      | some result => .ok (.ofInt result)
      | none => .error .divisionByZero := by
  cases operation with
  | add => simp only [apply, unbounded?, Int64.ofInt_add, Int64.ofInt_toInt]
  | sub => simp only [apply, unbounded?, Int64.ofInt_sub, Int64.ofInt_toInt]
  | mul => simp only [apply, unbounded?, Int64.ofInt_mul, Int64.ofInt_toInt]
  | div =>
      simp only [apply, unbounded?, toInt_eq_zero_iff]
      split
      · rfl
      · exact congrArg Except.ok (ofInt_tdiv_toInt x y).symm
  | mod =>
      simp only [apply, unbounded?, toInt_eq_zero_iff]
      split
      · rfl
      · exact congrArg Except.ok (ofInt_tmod_toInt x y).symm

/-! ### Quotients and remainders -/

/-- A quotient and a remainder give back what was divided, also where the quotient wraps around. -/
theorem div_mul_add_mod (x y : Int64) : x / y * y + x % y = x := by
  calc x / y * y + x % y
      = .ofInt (x.toInt.tdiv y.toInt) * .ofInt y.toInt + .ofInt (x.toInt.tmod y.toInt) := by
        rw [ofInt_tdiv_toInt, ofInt_tmod_toInt, Int64.ofInt_toInt]
    _ = .ofInt (x.toInt.tdiv y.toInt * y.toInt + x.toInt.tmod y.toInt) := by
        rw [Int64.ofInt_add, Int64.ofInt_mul]
    _ = .ofInt x.toInt := by rw [Int.tdiv_mul_add_tmod]
    _ = x := Int64.ofInt_toInt x

theorem toInt_div {x y : Int64} (hfits : ¬(x = Int64.minValue ∧ y = -1)) :
    (x / y).toInt = x.toInt.tdiv y.toInt := by
  by_cases hx : x = Int64.minValue
  · exact Int64.toInt_div_of_ne_right x y fun hy => hfits ⟨hx, hy⟩
  · exact Int64.toInt_div_of_ne_left x y hx

theorem natAbs_toInt_mod_lt (x : Int64) {y : Int64} (hy : y ≠ 0) :
    (x % y).toInt.natAbs < y.toInt.natAbs := by
  have hy' : y.toInt ≠ 0 := mt (toInt_eq_zero_iff y).mp hy
  rw [Int64.toInt_mod, Int.natAbs_tmod]
  exact Nat.mod_lt _ (Int.natAbs_pos.mpr hy')

/-- A remainder has the sign of what was divided. -/
theorem mod_eq_zero_or_sign_eq (x y : Int64) :
    x % y = 0 ∨ (x % y).toInt.sign = x.toInt.sign := by
  rw [← toInt_eq_zero_iff, Int64.toInt_mod, Int.sign_tmod]
  split
  next hdvd => exact .inl (Int.tmod_eq_zero_of_dvd hdvd)
  next => exact .inr rfl

end Arithmetic

namespace Function

variable {operation : Arithmetic} {x y : String}

theorem integer_eq_ok {number : Int64} (hx : Value.toInt x = .ok number) :
    integer x = .ok number := by
  -- `delta`, since an equation for `integer` costs seconds to state: it unfolds `Value.toInt`.
  delta integer
  rw [hx]

theorem integer_eq_error {error : ValueError} (hx : Value.toInt x = .error error) :
    integer x = .error (.failed (.value error)) := by
  delta integer
  rw [hx]

theorem eval_arithmetic (operation : Arithmetic) (x y : String) :
    eval (.arithmetic operation) [x, y] =
      (do
        let first ← integer x
        let second ← integer y
        return Decimal.ofInt64 (← compute operation first second)) := rfl

/-- A function of two numerals gives the decimal text of the result. -/
theorem eval_arithmetic_of_toInt {first second : Int64} (hx : Value.toInt x = .ok first)
    (hy : Value.toInt y = .ok second) :
    eval (.arithmetic operation) [x, y] =
      match operation.apply first second with
      | .ok result => .ok (Decimal.ofInt64 result)
      | .error kind => .error (.failed kind) := by
  rw [eval_arithmetic, integer_eq_ok hx, integer_eq_ok hy]
  change (compute operation first second >>= fun result => .ok (Decimal.ofInt64 result)) = _
  rw [compute]
  cases operation.apply first second <;> rfl

/-- A function of two texts fails when one of them is no integer or the operation has no result for
them. -/
theorem eval_arithmetic_eq_error
    (hnone : ∀ first second, Value.toInt x = .ok first → Value.toInt y = .ok second →
      operation.unbounded? first.toInt second.toInt = none) :
    ∃ kind, eval (.arithmetic operation) [x, y] = .error (.failed kind) := by
  cases hx : Value.toInt x with
  | error error =>
      refine ⟨.value error, ?_⟩
      rw [eval_arithmetic, integer_eq_error hx]
      rfl
  | ok first =>
      cases hy : Value.toInt y with
      | error error =>
          refine ⟨.value error, ?_⟩
          rw [eval_arithmetic, integer_eq_ok hx, integer_eq_error hy]
          rfl
      | ok second =>
          refine ⟨.divisionByZero, ?_⟩
          rw [eval_arithmetic_of_toInt hx hy, Arithmetic.apply_eq, hnone first second hx hy]

end Function

/-! ## Changing a stored integer -/

theorem Value.isNull_ofInt64 (number : Int64) : isNull (Decimal.ofInt64 number) = false := by
  have hempty : Decimal.ofInt64 number ≠ "" := by
    intro hempty
    apply Decimal.toList_ofInt64_ne_nil number
    rw [hempty]
    rfl
  have hword := @sameIgnoringCase_ofInt64 number null (by decide +kernel)
  rw [isNull, trim_ofInt64, hword, Bool.or_false]
  simpa using hempty

namespace Store

variable {S : Type} [Store S]

variable {store : S} {key : String}

theorem getInt_eq_ok {number : Int64} (hvalue : Value.toInt (get store key) = .ok number) :
    getInt store key = .ok number := by
  delta getInt
  simp only [hvalue]

/-- The error for a stored text that is no integer names the key. -/
theorem getInt_eq_error {error : ValueError} (hvalue : Value.toInt (get store key) = .error error) :
    getInt store key = .error (.notNumeric ("[" ++ key ++ "] " ++ get store key)) := by
  delta getInt
  simp only [hvalue]

/-- An integer is read back as it was stored. -/
theorem getInt_set_ofInt64 [LawfulStore S] (store : S) (key : String) (number : Int64) :
    getInt (set store key (Decimal.ofInt64 number)) key = .ok number := by
  apply getInt_eq_ok
  rw [get_set, Value.isNull_ofInt64, if_neg Bool.false_ne_true, Value.toInt_ofInt64]

end Store

namespace Primitive

variable {S : Type} [Store S] {operation : Arithmetic} {key operand : String} (span : Span)
  (frame : Frame S)

/-- Where a key holds an integer, changing it sets the key to what the function of the operation
gives for its value. -/
theorem update_eq {first : Int64}
    (hfirst : Value.toInt (Store.get frame.engine.store key) = .ok first) :
    update span operation key operand frame =
      (do
        let text ← Exec.ofFault span
          (Function.eval (.arithmetic operation) [Store.get frame.engine.store key, operand])
        Exec.mapStore fun store => Store.set store key text : Exec S Unit) frame := by
  rw [update, Exec.bind_apply, Function.eval_arithmetic, Function.integer_eq_ok hfirst]
  change (Exec.ofValue span (Store.getInt frame.engine.store key) >>= _) frame = _
  rw [Store.getInt_eq_ok hfirst]
  change (Exec.ofFault span (Function.integer operand) >>= _) frame = _
  cases Function.integer operand with
  | error fault => rfl
  | ok second =>
      change (Exec.ofFault span (Function.compute operation first second) >>= _) frame =
        (Exec.ofFault span (Function.compute operation first second >>= fun result =>
          .ok (Decimal.ofInt64 result)) >>= _) frame
      cases Function.compute operation first second <;> rfl

theorem update_eq_ok {first : Int64}
    (hfirst : Value.toInt (Store.get frame.engine.store key) = .ok first) {text : String}
    (heval : Function.eval (.arithmetic operation) [Store.get frame.engine.store key, operand] =
      .ok text) :
    update span operation key operand frame =
      .ok () (frame.mapStore fun store => Store.set store key text) := by
  rw [update_eq span frame hfirst, heval]
  rfl

/-- Changing a stored integer fails when the function of the operation does. The texts of the errors
may differ, since the one for a stored text that is no integer names the key too. -/
theorem update_eq_error {kind : ErrorKind}
    (heval : Function.eval (.arithmetic operation) [Store.get frame.engine.store key, operand] =
      .error (.failed kind)) :
    ∃ found : ErrorKind, found.code = kind.code ∧
      update span operation key operand frame = .error (.failed (.atSpan found span)) frame := by
  cases hfirst : Value.toInt (Store.get frame.engine.store key) with
  | error error =>
      rw [Function.eval_arithmetic, Function.integer_eq_error hfirst] at heval
      cases heval
      obtain rfl := Value.toInt_eq_error hfirst
      let value := Store.get frame.engine.store key
      refine ⟨.value (.notNumeric ("[" ++ key ++ "] " ++ value)), rfl, ?_⟩
      rw [update, Exec.bind_apply]
      change (Exec.ofValue span (Store.getInt frame.engine.store key) >>= _) frame = _
      rw [Store.getInt_eq_error hfirst]
      rfl
  | ok first =>
      refine ⟨kind, rfl, ?_⟩
      rw [update_eq span frame hfirst, heval]
      rfl

end Primitive

namespace Expression

variable {S : Type} [Store S]

/-- A script spells the expression as `text`, and it gives `number`. -/
structure Gives (expression : Expression) (store : S) (text : String) (number : Int64) : Prop where
  text_eq : expression.text = text
  value_eq : expression.value store = .ok (Decimal.ofInt64 number)

theorem Gives.ofInt64 (store : S) (number : Int64) :
    (literal (.ofInt64 number)).Gives store (Decimal.ofInt64 number) number :=
  ⟨rfl, rfl⟩

/-- An operation on expressions that give numbers gives its result for them. -/
theorem Gives.computed {operation : Arithmetic} {left right : Expression} {store : S}
    {opening first second : String} {x y result : Int64}
    (hopening : (Keyword.arithmetic operation).spelling = opening)
    (hleft : left.Gives store first x) (hright : right.Gives store second y)
    (hresult : operation.apply x y = .ok result) :
    (Expression.computed operation left right).Gives store
      (opening ++ first ++ "," ++ second ++ ")") result where
  text_eq := by rw [text_computed, hopening, hleft.text_eq, hright.text_eq]
  value_eq := by
    rw [value, hleft.value_eq, hright.value_eq]
    change Function.eval (.arithmetic operation) [Decimal.ofInt64 x, Decimal.ofInt64 y] = _
    rw [Function.eval_arithmetic_of_toInt (Value.toInt_ofInt64 x) (Value.toInt_ofInt64 y), hresult]

theorem call_write (run : Runner S) (expression : Expression) (frame : Frame S) :
    call run .write [expression] frame =
      (Exec.ofFault default (expression.value frame.engine.store) >>= Exec.write) frame := by
  rw [call, Exec.bind_apply]
  simp only [List.mapM_cons, List.mapM_nil]
  change (Exec.ofFault default _ >>= _) frame = _
  cases hvalue : expression.value frame.engine.store with
  | error fault => rfl
  | ok text => exact Exec.builtin_write run default text frame

theorem call_set (run : Runner S) (key : Literal) (expression : Expression) (frame : Frame S) :
    call run .set [.literal key, expression] frame =
      (do
        let text ← Exec.ofFault default (expression.value frame.engine.store)
        Exec.mapStore fun store => Store.set store key.value text : Exec S Unit) frame := by
  rw [call, Exec.bind_apply]
  simp only [List.mapM_cons, List.mapM_nil]
  change (Exec.ofFault default _ >>= _) frame = _
  cases expression.value frame.engine.store <;> rfl

theorem call_update (run : Runner S) (operation : Arithmetic) (key operand : Literal)
    (frame : Frame S) :
    call run (.update operation) [.literal key, .literal operand] frame =
      Primitive.update default operation key.value operand.value frame := by
  rw [call, Exec.bind_apply]
  simp only [List.mapM_cons, List.mapM_nil]
  rfl

theorem fits_write {expression : Expression} (hheight : expression.height ≤ 4) :
    Fits 8 .write expression [] where
  callable := by decide +kernel
  arity := rfl
  parts := by simp
  height := List.forall_mem_singleton.mpr (Nat.add_le_add_right hheight 4)

theorem fits_update (operation : Arithmetic) (key operand : Literal) :
    Fits 8 (.update operation) (.literal key) [.literal operand] where
  callable := by cases operation <;> decide +kernel
  arity := by cases operation <;> rfl
  parts := by simp
  height := by simp [height]

theorem fits_set (key : Literal) {expression : Expression} (hheight : expression.height ≤ 4) :
    Fits 8 .set (.literal key) [expression] where
  callable := by decide +kernel
  arity := rfl
  parts := by simp
  height := by
    have hkey : (literal key).height + 4 ≤ 8 := by simp [height]
    exact List.forall_mem_cons.mpr
      ⟨hkey, List.forall_mem_singleton.mpr (Nat.add_le_add_right hheight 4)⟩

theorem callText_set (key : Literal) (expression : Expression) :
    callText .set (.literal key) [expression] =
      "@set(" ++ key.text ++ "," ++ expression.text ++ ")" := by
  have hset : Keyword.set.spelling = "@set(" := by decide +kernel
  rw [callText_two, hset]
  rfl

end Expression

namespace Engine

variable {S : Type} [Store S]

theorem eight_lt_ampleFuel : 8 < ampleFuel := by decide

variable {engine : Engine S} (hlimit : Frame.exceededLimit? ⟨engine, ""⟩ = none)
  {expression : Expression} (hheight : expression.height ≤ 4)

include hlimit hheight

/-- A script can write the number that an expression gives. -/
theorem run_write {text : String} {number : Int64}
    (hgives : expression.Gives engine.store text number) :
    engine.run ("@write(" ++ text ++ ")") = ⟨engine, some (Decimal.ofInt64 number), .ok ()⟩ := by
  have hwrite : Keyword.write.spelling = "@write(" := by decide +kernel
  have hvalue : expression.value (Frame.enter ⟨engine, ""⟩).engine.store =
    .ok (Decimal.ofInt64 number) := hgives.value_eq
  rw [← hgives.text_eq, ← hwrite, ← Expression.callText_one]
  refine run_callText hlimit eight_lt_ampleFuel (Expression.fits_write hheight) fun run => ?_
  rw [Expression.call_write, hvalue, ← @String.empty_append (Decimal.ofInt64 number)]
  rfl

variable (key : Literal)

/-- A script can set a key to what an expression gives. -/
theorem run_set {text : String} (hvalue : expression.value engine.store = .ok text) :
    engine.run ("@set(" ++ key.text ++ "," ++ expression.text ++ ")") =
      ⟨{ engine with store := Store.set engine.store key.value text }, some "", .ok ()⟩ := by
  have hvalue' : expression.value (Frame.enter ⟨engine, ""⟩).engine.store = .ok text := hvalue
  rw [← Expression.callText_set]
  refine run_callText hlimit eight_lt_ampleFuel (Expression.fits_set key hheight) fun run => ?_
  rw [Expression.call_set, hvalue']
  rfl

theorem run_set_of_failed {kind : ErrorKind}
    (hvalue : expression.value engine.store = .error (.failed kind)) :
    ∃ found : RunError, found.kind = kind ∧
      engine.run ("@set(" ++ key.text ++ "," ++ expression.text ++ ")") =
        ⟨engine, some "", .error (.failed found)⟩ := by
  have hrun (run : Runner S) :
      Expression.call run .set [.literal key, expression] (Frame.enter ⟨engine, ""⟩) =
        .error (.failed (.atSpan kind default)) (Frame.enter ⟨engine, ""⟩) := by
    have hvalue' : expression.value (Frame.enter ⟨engine, ""⟩).engine.store =
      .error (.failed kind) := hvalue
    rw [Expression.call_set, hvalue']
    rfl
  rw [← Expression.callText_set]
  exact run_callText_of_failed hlimit eight_lt_ampleFuel (Expression.fits_set key hheight) hrun

end Engine

/-! ## What scripts compute -/

namespace Engine

variable {S : Type} [Store S]

/-- Scripts divide as 64-bit integers do: the quotient times the divisor, plus the remainder, is
what was divided, whatever the signs. The remainder is smaller than the divisor and has the sign of
what was divided, and the quotient is rounded toward zero. Only dividing the least integer by minus one
wraps around; it gives that integer. -/
theorem quotient_and_remainder_give_back (engine : Engine S)
    (hlimit : ∀ limit, engine.options.maxDepth = some limit → engine.depth ≤ limit)
    (x y : Int64) (hy : y ≠ 0) :
    let first := Decimal.ofInt64 x
    let second := Decimal.ofInt64 y
    let dividing := "@div(" ++ first ++ "," ++ second ++ ")"
    let reducing := "@mod(" ++ first ++ "," ++ second ++ ")"
    let multiplying := "@mul(" ++ dividing ++ "," ++ second ++ ")"
    let adding := "@add(" ++ multiplying ++ "," ++ reducing ++ ")"
    engine.run ("@write(" ++ adding ++ ")") = ⟨engine, some first, .ok ()⟩ ∧
      ∃ quotient remainder : Int64,
        engine.run ("@write(" ++ dividing ++ ")") =
          ⟨engine, some (Decimal.ofInt64 quotient), .ok ()⟩ ∧
        engine.run ("@write(" ++ reducing ++ ")") =
          ⟨engine, some (Decimal.ofInt64 remainder), .ok ()⟩ ∧
        remainder.toInt.natAbs < y.toInt.natAbs ∧
        (remainder = 0 ∨ remainder.toInt.sign = x.toInt.sign) ∧
        if x = Int64.minValue ∧ y = -1 then quotient = Int64.minValue ∧ remainder = 0
        else quotient.toInt = x.toInt.tdiv y.toInt := by
  intro first second dividing reducing multiplying adding
  have hframe : Frame.exceededLimit? ⟨engine, ""⟩ = none :=
    Frame.exceededLimit?_eq_none_iff.mpr hlimit
  let dividend := Expression.literal (.ofInt64 x)
  let divisor := Expression.literal (.ofInt64 y)
  let quotient := Expression.computed .div dividend divisor
  let remainder := Expression.computed .mod dividend divisor
  let product := Expression.computed .mul quotient divisor
  let sum := Expression.computed .add product remainder
  have hdividend : dividend.Gives engine.store first x := .ofInt64 engine.store x
  have hdivisor : divisor.Gives engine.store second y := .ofInt64 engine.store y
  have hquotient : quotient.Gives engine.store dividing (x / y) :=
    .computed (by decide +kernel) hdividend hdivisor (if_neg hy)
  have hremainder : remainder.Gives engine.store reducing (x % y) :=
    .computed (by decide +kernel) hdividend hdivisor (if_neg hy)
  have hproduct : product.Gives engine.store multiplying (x / y * y) :=
    .computed (by decide +kernel) hquotient hdivisor rfl
  have hsum : sum.Gives engine.store adding (x / y * y + x % y) :=
    .computed (by decide +kernel) hproduct hremainder rfl
  rw [Arithmetic.div_mul_add_mod] at hsum
  have hheight : quotient.height ≤ 4 ∧ remainder.height ≤ 4 ∧ sum.height ≤ 4 := by
    simp [quotient, remainder, sum, product, dividend, divisor, Expression.height]
  obtain ⟨hheight, hheight', hheight''⟩ := hheight
  refine ⟨run_write hframe hheight'' hsum, x / y, x % y, run_write hframe hheight hquotient,
    run_write hframe hheight' hremainder, Arithmetic.natAbs_toInt_mod_lt x hy,
    Arithmetic.mod_eq_zero_or_sign_eq x y, ?_⟩
  split
  next hleast =>
    obtain ⟨rfl, rfl⟩ := hleast
    exact ⟨Int64.minValue_div_neg_one, rfl⟩
  next hfits => exact Arithmetic.toInt_div hfits

/-- The one quotient that wraps around. -/
theorem least_integer_divided_by_minus_one :
    let engine := Engine.new Dictionary.empty { maxDepth := some 0 }
    (∀ limit, engine.options.maxDepth = some limit → engine.depth ≤ limit) ∧ (-1 : Int64) ≠ 0 ∧
      engine.run ("@write(@add(@mul(@div(-9223372036854775808,-1),-1)," ++
        "@mod(-9223372036854775808,-1)))") = ⟨engine, some "-9223372036854775808", .ok ()⟩ ∧
      engine.run "@write(@div(-9223372036854775808,-1))" =
        ⟨engine, some "-9223372036854775808", .ok ()⟩ ∧
      engine.run "@write(@mod(-9223372036854775808,-1))" = ⟨engine, some "0", .ok ()⟩ := by
  intro engine
  have hlimit : ∀ limit, engine.options.maxDepth = some limit → engine.depth ≤ limit :=
    fun limit _ => Nat.zero_le limit
  have hne : (-1 : Int64) ≠ 0 := by decide
  have hleast : Decimal.ofInt64 Int64.minValue = "-9223372036854775808" := by decide +kernel
  have hone : Decimal.ofInt64 (-1) = "-1" := by decide +kernel
  have hzero : Decimal.ofInt64 0 = "0" := by decide +kernel
  obtain ⟨hsum, quotient, remainder, hquotient, hremainder, -, -, hvalues⟩ :=
    quotient_and_remainder_give_back engine hlimit Int64.minValue (-1) hne
  obtain ⟨rfl, rfl⟩ := hvalues
  rw [hleast, hone] at hsum hquotient
  rw [hleast, hone, hzero] at hremainder
  simp only [String.reduceAppend] at hsum hquotient hremainder
  exact ⟨hlimit, hne, hsum, hquotient, hremainder⟩

end Engine

end AtScript
