import AtScript.Proofs.Fuel
import AtScript.Proofs.SameEntries
import AtScript.Store.Sorted

/-! # Runs that do not look at the order of the keys

Only two commands look at the order in which a store lists its keys: a loop over keys, and a call of
a stored script, which runs the first script that matches. A run without such loops and in which no
call matches several keys does the same on every store that holds the same entries.
-/

namespace AtScript

/-! ## Commands that run no script -/

namespace Primitive

open Exec

variable {S T : Type} [Store S] [Store T] (span : Span)

theorem items_mirrors (name : String) :
    Mirrors (S := S) (T := T) (items span name) (items span name) := by
  apply Mirrors.store_bind
  intro current current' hsame
  rw [hsame.get_eq]
  exact .ofValue span _

theorem random_mirrors (limit : Int64) :
    Mirrors (S := S) (T := T) (random limit) (random limit) where
  of_agrees hagrees := by
    rw [random_apply, random_apply, hagrees.engine.generator]
    exact .ok ((hagrees.withGenerator _).write _)

theorem chance_mirrors (percent : Int64) :
    Mirrors (S := S) (T := T) (chance percent) (chance percent) where
  of_agrees hagrees := by
    rw [chance_apply, chance_apply, hagrees.engine.generator]
    exact .ok ((hagrees.withGenerator _).write _)

theorem receive_mirrors : Mirrors (S := S) (T := T) receive receive where
  of_agrees {frame other} hagrees := by
    obtain ⟨⟨current, inbox, sent, options, generator, depth⟩, out⟩ := frame
    obtain ⟨⟨current', inbox', sent', options', generator', depth'⟩, out'⟩ := other
    obtain rfl : inbox = inbox' := hagrees.engine.inbox
    cases inbox with
    | nil => exact .ok hagrees
    | cons text rest => exact .ok ((hagrees.withInbox rest).write text)

variable [LawfulStore S] [LawfulStore T]

theorem set_mirrors (key value : String) :
    Mirrors (mapStore fun store : S => Store.set store key value)
      (mapStore fun store : T => Store.set store key value) :=
  .mapStore fun hsame => hsame.set key value

omit [LawfulStore S] [LawfulStore T] in
theorem checkLength_mirrors (length : Nat) :
    Mirrors (S := S) (T := T) (checkLength length) (checkLength length) := by
  unfold checkLength
  split
  · exact .pure ()
  · exact .throw .tooLong

omit [LawfulStore S] [LawfulStore T] in
theorem padTo_mirrors (length : Nat) (texts : List String) :
    Mirrors (S := S) (T := T) (padTo length texts) (padTo length texts) :=
  (checkLength_mirrors _).bind fun _ => .pure _

theorem saveItems_mirrors (name : String) (texts : List String) :
    Mirrors (S := S) (T := T) (saveItems name texts) (saveItems name texts) :=
  set_mirrors name (PackedList.encode texts)

theorem onList_mirrors (command : ListCommand) (arguments : List String) :
    Mirrors (S := S) (T := T) (onList span command arguments) (onList span command arguments) := by
  unfold onList
  split
  next name => exact set_mirrors name ""
  next name value =>
    refine (items_mirrors span name).bind fun texts => ?_
    exact (checkLength_mirrors _).bind fun _ => saveItems_mirrors name _
  next name place =>
    refine (items_mirrors span name).bind fun texts => ?_
    exact (Mirrors.ofFault span _).bind fun index => .write _
  next name => exact (items_mirrors span name).bind fun texts => .write _
  next name place value =>
    refine (items_mirrors span name).bind fun texts => ?_
    refine (Mirrors.ofFault span _).bind fun index => ?_
    refine (padTo_mirrors _ texts).bind fun padded => ?_
    split
    · exact saveItems_mirrors name _
    · exact .throw _
  next name place value =>
    refine (items_mirrors span name).bind fun texts => ?_
    refine (Mirrors.ofFault span _).bind fun index => ?_
    refine (padTo_mirrors index texts).bind fun padded => ?_
    refine (checkLength_mirrors _).bind fun _ => ?_
    split
    · exact saveItems_mirrors name _
    · exact .throw _
  next name place =>
    refine (items_mirrors span name).bind fun texts => ?_
    refine (Mirrors.ofFault span _).bind fun index => ?_
    split
    · exact saveItems_mirrors name _
    · exact .pure ()
  next => exact .throw _

theorem onArray_mirrors (command : ArrayCommand) (arguments : List String) :
    Mirrors (S := S) (T := T) (onArray span command arguments)
      (onArray span command arguments) := by
  unfold onArray
  split
  next name => exact .mapStore fun hsame => hsame.clearCells name
  next name y x =>
    refine (Mirrors.ofFault span _).bind fun row => ?_
    refine (Mirrors.ofFault span _).bind fun column => ?_
    exact .write_stored _ Value.unpackItem
  next name y x value =>
    refine (Mirrors.ofFault span _).bind fun row => ?_
    exact (Mirrors.ofFault span _).bind fun column => set_mirrors _ _
  next => exact .throw _

theorem update_mirrors (operation : Arithmetic) (key operand : String) :
    Mirrors (S := S) (T := T) (update span operation key operand)
      (update span operation key operand) := by
  apply Mirrors.store_bind
  intro current current' hsame
  rw [hsame.getInt_eq]
  refine (Mirrors.ofValue span _).bind fun number => ?_
  refine (Mirrors.ofFault span _).bind fun amount => ?_
  exact (Mirrors.ofFault span _).bind fun result => set_mirrors _ _

/-- A command that runs no script does the same on stores with the same entries. -/
theorem run_mirrors (keyword : Keyword) (arguments : List String) :
    Mirrors (S := S) (T := T) (run span keyword arguments) (run span keyword arguments) := by
  unfold run
  split
  next => exact .pure ()
  next => exact set_mirrors _ _
  next first second => exact .mapStore fun hsame => hsame.exchange first second
  next operation key operand => exact update_mirrors span operation key operand
  next => exact .write _
  next key => exact .write_stored key (· ++ Value.lineBreak)
  next => exact .write _
  next key => exact .write_stored key id
  next question key => exact .write_stored key fun value => Value.ofBool (question.holds value)
  next => exact (Mirrors.ofFault span _).bind random_mirrors
  next => exact (Mirrors.ofFault span _).bind chance_mirrors
  next => exact receive_mirrors
  next text => exact .modify fun hagrees => hagrees.send text
  next command => exact onList_mirrors span command _
  next command => exact onArray_mirrors span command _
  next => exact (Mirrors.ofFault span _).bind fun text => .write text

end Primitive

namespace Exec

variable {S T : Type} [Store S] [Store T] {run : Runner S} {run' : Runner T}

/-! ## Parts of commands -/

section

variable (hrun : ∀ tokens, Mirrors (run tokens) (run' tokens))

include hrun

theorem sequence_mirrors (budget : Nat) (tokens : List Token) :
    Mirrors (sequence run budget tokens) (sequence run' budget tokens) := by
  induction budget generalizing tokens with
  | zero =>
      cases tokens with
      | nil => exact .pure ()
      | cons token rest => exact .throw _
  | succ budget ih =>
      cases tokens with
      | nil =>
          simp only [sequence]
          exact .pure ()
      | cons token rest =>
          simp only [sequence]
          exact (hrun _).bind ih

theorem nested_mirrors (script : String) : Mirrors (nested run script) (nested run' script) :=
  .nested script (sequence_mirrors hrun _ _)

theorem argumentsFrom_mirrors (opener : Token) (budget : Nat) (part : String) (begun : Bool)
    (tokens : List Token) :
    Mirrors (argumentsFrom run opener budget part begun tokens)
      (argumentsFrom run' opener budget part begun tokens) := by
  induction budget generalizing part begun tokens with
  | zero => exact .throw _
  | succ budget ih =>
      cases tokens with
      | nil => exact .fail _ _
      | cons token rest =>
          have hcommand :
              Mirrors (capture (run (token :: rest)) >>= fun value =>
                  argumentsFrom run opener budget (part ++ value.2) true value.1)
                (capture (run' (token :: rest)) >>= fun value =>
                  argumentsFrom run' opener budget (part ++ value.2) true value.1) :=
            (hrun _).capture.bind fun value => ih _ true value.1
          simp only [argumentsFrom]
          cases token.role with
          | comma => exact (ih "" true rest).bind fun value => .pure _
          | close => exact .pure _
          | literal value => exact ih _ true rest
          | keyword keyword =>
              dsimp only
              split
              · exact .fail _ _
              · exact hcommand
          | stored => exact hcommand

theorem arguments_mirrors (budget : Nat) (command : Token) (rest : List Token) :
    Mirrors (arguments budget run command rest) (arguments budget run' command rest) := by
  rw [arguments, arguments]
  split
  · exact argumentsFrom_mirrors hrun command budget "" false rest
  · exact .pure _

theorem conditionFrom_mirrors (ifSpan : Span) (budget : Nat) (condition : PartialCondition)
    (tokens : List Token) :
    Mirrors (conditionFrom run ifSpan budget condition tokens)
      (conditionFrom run' ifSpan budget condition tokens) := by
  induction budget generalizing condition tokens with
  | zero => exact .throw _
  | succ budget ih =>
      cases tokens with
      | nil => exact .fail _ _
      | cons token rest =>
          have hpart : Mirrors (conditionPart run token rest) (conditionPart run' token rest) := by
            rw [conditionPart, conditionPart]
            split
            · exact .pure _
            · exact (hrun _).capture
          simp only [conditionFrom]
          cases conditionRole token with
          | refused => exact .fail _ _
          | ending =>
              dsimp only
              split
              · exact .fail _ _
              · exact .pure _
          | negation => exact ih _ rest
          | connector conjunction =>
              dsimp only
              split
              · exact .fail _ _
              · exact ih _ rest
          | part =>
              dsimp only
              split
              · refine hpart.bind fun value => ?_
                exact (Mirrors.ofValue token.span _).bind fun truth => ih _ value.1
              · exact .fail _ _

theorem chooseBranchWithin_mirrors (budget : Nat) (ifSpan : Span) (count : Nat)
    (tokens : List Token) :
    Mirrors (chooseBranchWithin budget run ifSpan count tokens)
      (chooseBranchWithin budget run' ifSpan count tokens) := by
  induction count generalizing tokens with
  | zero => exact .throw _
  | succ count ih =>
      refine (conditionFrom_mirrors hrun ifSpan budget {} tokens).bind fun value => ?_
      dsimp only
      split
      · exact .pure _
      · split
        · exact ih _
        · exact .pure _
        · exact .pure _
        · exact .fail _ _

theorem forEach_mirrors (name : String) (body : List Token) (values : List String) :
    Mirrors (forEach run name body values) (forEach run' name body values) := by
  induction values with
  | nil => exact .pure ()
  | cons value rest ih => exact (sequence_mirrors hrun _ _).bind fun _ => ih

end

theorem checkArity_mirrors (command : Token) (arity : Arity) (found : Nat) :
    Mirrors (S := S) (T := T) (checkArity command arity found)
      (checkArity command arity found) := by
  rw [checkArity, checkArity]
  split
  · exact .pure ()
  · exact .fail _ _

/-- Only a loop over keys looks at their order for its values. -/
theorem loopValues_mirrors {family : LoopFamily} (hfamily : family ≠ .keys) (span : Span)
    (arguments : List String) :
    Mirrors (S := S) (T := T) (loopValues family span arguments)
      (loopValues family span arguments) := by
  unfold loopValues
  split
  next =>
    refine (Mirrors.ofValue span _).bind fun first => ?_
    exact (Mirrors.ofValue span _).bind fun last => .pure _
  next => exact absurd rfl hfamily
  next => exact absurd rfl hfamily
  next =>
    apply Mirrors.store_bind
    intro current current' hsame
    rw [hsame.get_eq]
    exact (Mirrors.ofValue span _).bind fun texts => .pure _
  next => exact .throw _

theorem loop_mirrors (hrun : ∀ tokens, Mirrors (run tokens) (run' tokens)) (budget : Nat)
    {family : LoopFamily} (hfamily : family ≠ .keys) (header : Token) (rest : List Token) :
    Mirrors (loop budget run family header rest) (loop budget run' family header rest) := by
  refine (arguments_mirrors hrun budget header rest).bind fun value => ?_
  refine (checkArity_mirrors header _ _).bind fun _ => ?_
  split
  · exact .fail _ _
  · rw [iterate_eq, iterate_eq]
    refine .bind ?_ fun _ => .pure _
    refine (loopValues_mirrors hfamily header.span _).bind fun found => ?_
    exact forEach_mirrors hrun found.1 _ found.2

variable [LawfulStore S] [LawfulStore T]

theorem builtin_mirrors (hrun : ∀ tokens, Mirrors (run tokens) (run' tokens))
    (keyword : Keyword) (span : Span) (values : List String) :
    Mirrors (builtin run keyword span values) (builtin run' keyword span values) := by
  unfold builtin
  split
  next script => exact nested_mirrors hrun script
  next key =>
    apply Mirrors.store_bind
    intro current current' hsame
    rw [hsame.get_eq]
    exact nested_mirrors hrun _
  next key =>
    apply Mirrors.store_bind
    intro current current' hsame
    rw [hsame.get_eq]
    dsimp only
    split
    · exact nested_mirrors hrun _
    · exact .write _
  next => exact Primitive.run_mirrors span keyword values

theorem builtinCall_mirrors (hrun : ∀ tokens, Mirrors (run tokens) (run' tokens))
    (budget : Nat) (keyword : Keyword) (command : Token) (rest : List Token) :
    Mirrors (builtinCall budget run keyword command rest)
      (builtinCall budget run' keyword command rest) := by
  refine (arguments_mirrors hrun budget command rest).bind fun value => ?_
  refine (checkArity_mirrors command _ _).bind fun _ => ?_
  exact (builtin_mirrors hrun keyword command.span _).bind fun _ => .pure _

/-! ## Commands that look at the order of the keys -/

/-- Runs the command at the front of some tokens as `commandWith` does, but stops in a defect where
it would look at the order of the keys: at a loop over keys that is about to start, and at a call of
a stored script that several keys match. -/
def orderBlindWith (budget : Nat) (run : Runner S) : Runner S
  | [] => throw .defect
  | token :: rest =>
    match token.role with
    | .keyword (.loop .keys) => do
      let (values, tokens) ← arguments budget run token rest
      checkArity token (Keyword.loop .keys).arity values.length
      match Nesting.loopBody? .keys tokens with
      | none => fail (.imbalance (.missingEnd .keys)) token.span
      | some _ => throw .defect
    | .stored => do
      let current ← store
      if token.kind = .call ∧ 1 < (Store.entriesFrom current token.text).length then throw .defect
      else storedCall budget run token rest
    | _ => commandWith budget run (token :: rest)

/-- Runs the command at the front of some tokens without looking at the order of the keys. -/
def orderBlind : Nat → Runner S
  | 0 => fun _ => throw .outOfFuel
  | fuel + 1 => orderBlindWith fuel (orderBlind fuel)

/-- A call of a stored script that at most one key matches runs the same script on both stores. -/
theorem storedCall_endsAlike (hrun : ∀ tokens, Mirrors (run tokens) (run' tokens)) (budget : Nat)
    (command : Token) (rest : List Token) {frame : Frame S} {other : Frame T}
    (hagrees : frame.Agrees other)
    (hfew : command.kind = .call →
      (Store.entriesFrom frame.engine.store command.text).length ≤ 1) :
    EndsAlike (storedCall budget run command rest frame)
      (storedCall budget run' command rest other) := by
  apply Mirrors.store_bind_at hagrees
  intro current hsame
  by_cases hcall : command.kind = .call
  · simp only [hcall, if_true]
    rw [← hsame.entriesFrom_eq (hfew hcall)]
    split
    · exact .fail _ _
    · refine (arguments_mirrors hrun budget command rest).bind fun value => ?_
      refine (checkArity_mirrors command _ _).bind fun _ => ?_
      exact (nested_mirrors hrun _).bind fun _ => .pure _
  · simp only [hcall, if_false]
    rw [hsame.get_eq]
    split
    · exact .fail _ _
    · exact (nested_mirrors hrun _).bind fun _ => .pure _

/-- A command that does not look at the order of the keys does the same on both stores. -/
theorem orderBlindWith_mirrors (hrun : ∀ tokens, Mirrors (run tokens) (run' tokens))
    (budget : Nat) (tokens : List Token) :
    Mirrors (orderBlindWith budget run tokens) (commandWith budget run' tokens) := by
  cases tokens with
  | nil => exact .defect _
  | cons token rest =>
      cases hrole : token.role with
      | comma =>
          simp only [orderBlindWith, commandWith, hrole]
          exact .fail _ _
      | close =>
          simp only [orderBlindWith, commandWith, hrole]
          exact .fail _ _
      | literal value =>
          simp only [orderBlindWith, commandWith, hrole]
          exact (Mirrors.write value).bind fun _ => .pure _
      | stored =>
          simp only [orderBlindWith, commandWith, hrole]
          refine ⟨fun {frame other} hagrees => ?_⟩
          have hstore : store frame = .ok frame.engine.store frame := rfl
          rw [bind_apply, hstore]
          dsimp only
          split
          · exact .defect
          next hfew =>
            apply storedCall_endsAlike hrun budget token rest hagrees
            intro hcall
            exact Nat.le_of_not_lt fun hmany => hfew ⟨hcall, hmany⟩
      | keyword keyword =>
          cases hcontrol : keyword.isControl with
          | false =>
              have hblind : orderBlindWith budget run (token :: rest) =
                  commandWith budget run (token :: rest) := by
                cases keyword with
                | loop family => cases hcontrol
                | _ => simp only [orderBlindWith, hrole]
              rw [hblind, commandWith_ordinary budget run hrole hcontrol,
                commandWith_ordinary budget run' hrole hcontrol]
              exact builtinCall_mirrors hrun budget keyword token rest
          | true =>
              cases keyword with
              | branch part =>
                  cases part with
                  | ifWord =>
                      simp only [orderBlindWith, commandWith, hrole]
                      exact chooseBranchWithin_mirrors hrun budget token.span budget rest
                  | thenWord =>
                      simp only [orderBlindWith, commandWith, hrole]
                      exact .fail _ _
                  | endIf =>
                      simp only [orderBlindWith, commandWith, hrole]
                      exact .pure _
                  | elseIf | elseWord =>
                      simp only [orderBlindWith, commandWith, hrole]
                      split
                      · exact .pure _
                      · exact .fail _ _
              | connector word =>
                  simp only [orderBlindWith, commandWith, hrole]
                  exact .fail _ _
              | loop family =>
                  cases family with
                  | keys =>
                      simp only [orderBlindWith, commandWith, hrole]
                      refine (arguments_mirrors hrun budget token rest).bind fun value => ?_
                      refine (checkArity_mirrors token _ _).bind fun _ => ?_
                      cases Nesting.loopBody? .keys value.2 with
                      | none => exact .fail _ _
                      | some found => exact .defect _
                  | range | items =>
                      simp only [orderBlindWith, commandWith, hrole]
                      exact loop_mirrors hrun budget (by decide) token rest
              | endLoop family =>
                  simp only [orderBlindWith, commandWith, hrole]
                  exact .fail _ _
              | _ => cases hcontrol

theorem orderBlind_mirrors (fuel : Nat) (tokens : List Token) :
    Mirrors (S := S) (T := T) (orderBlind fuel tokens) (command fuel tokens) := by
  induction fuel generalizing tokens with
  | zero => exact .throw _
  | succ fuel ih => exact orderBlindWith_mirrors ih fuel tokens

end Exec

/-! ## Whole runs -/

variable {S T : Type} [Store S] [Store T]

/-- Whether a run never looks at the order of the keys: it starts no loop over keys, and no call of
a stored script in it matches several keys. -/
def Engine.ignoresOrder (fuel : Nat) (engine : Engine S) (script : String) : Bool :=
  match Exec.nested (Exec.orderBlind fuel) script ⟨engine, ""⟩ with
  | .error .defect _ => false
  | _ => true

/-- Two outcomes that differ at most in the order of the keys. -/
structure Outcome.Agrees (first : Outcome S) (second : Outcome T) : Prop where
  engine : first.engine.Agrees second.engine
  output : first.output = second.output
  result : first.result = second.result

variable [LawfulStore S] [LawfulStore T]

/-- A script that ignores the order of the keys ends alike on stores with the same entries. -/
theorem Engine.nested_endsAlike {first : Engine S} {second : Engine T}
    (hagrees : first.Agrees second) {fuel : Nat} {script : String}
    (hignores : first.ignoresOrder fuel script = true) :
    Exec.EndsAlike (Exec.nested (Exec.command fuel) script ⟨first, ""⟩)
      (Exec.nested (Exec.command fuel) script ⟨second, ""⟩) := by
  -- Neither run looks at the order, so both are compared with the run that cannot.
  have hfirst : Exec.EndsAlike (Exec.nested (Exec.orderBlind fuel) script ⟨first, ""⟩)
      (Exec.nested (Exec.command fuel) script ⟨first, ""⟩) :=
    (Exec.nested_mirrors (Exec.orderBlind_mirrors fuel) script).of_agrees ⟨.refl first, rfl⟩
  have hsecond : Exec.EndsAlike (Exec.nested (Exec.orderBlind fuel) script ⟨first, ""⟩)
      (Exec.nested (Exec.command fuel) script ⟨second, ""⟩) :=
    (Exec.nested_mirrors (Exec.orderBlind_mirrors fuel) script).of_agrees ⟨hagrees, rfl⟩
  apply hfirst.both hsecond
  intro after hdefect
  rw [ignoresOrder, hdefect] at hignores
  cases hignores

/-- Stores are interchangeable up to order. On two engines that differ at most in the order of their
keys, a run that ends and never looks at that order has the same outcome: it ends on the second
engine as well, however much fuel there is beyond that of the first run, with the same output and
the same result, and the engines differ again at most in the order of their keys. -/
theorem Engine.stores_are_interchangeable {first : Engine S} {second : Engine T}
    (hagrees : first.Agrees second) {fuel : Nat} {script : String}
    (hended : (first.runWithin fuel script).Ended)
    (hignores : first.ignoresOrder fuel script = true) {more : Nat} (hmore : fuel ≤ more) :
    (second.runWithin more script).Ended ∧
      (first.runWithin fuel script).Agrees (second.runWithin more script) := by
  have hsame : (first.runWithin fuel script).Agrees (second.runWithin fuel script) := by
    have hends := nested_endsAlike hagrees hignores
    rw [runWithin] at hended ⊢
    rw [runWithin]
    split at hended
    next hnull =>
      rw [if_pos hnull, if_pos hnull]
      exact ⟨hagrees, rfl, rfl⟩
    next hnull =>
      rw [if_neg hnull, if_neg hnull]
      generalize Exec.nested (Exec.command fuel) script ⟨first, ""⟩ = result,
        Exec.nested (Exec.command fuel) script ⟨second, ""⟩ = result' at hends hended
      cases hends with
      | ok hafter => exact ⟨hafter.engine, congrArg some hafter.out, rfl⟩
      | error hafter => exact ⟨hafter.engine, congrArg some hafter.out, rfl⟩
      | defect => exact (hended .defect rfl).elim
  have hended' : (second.runWithin fuel script).Ended := by
    intro stop hstop
    exact hended stop (hsame.result.trans hstop)
  rw [runWithin_of_le hended' hmore]
  exact ⟨hended', hsame⟩

/-- A dictionary that was filled in one order and a sorted store. The script clears the two cells of
an array, which the stores list in different orders, calls a stored script and then fails. -/
theorem Engine.interchangeable_sample_stores :
    let first : Engine Dictionary := .new (Store.insert (Store.insert (Store.insert
      Dictionary.empty "n[0,1]" "x") "@two(x)" "$x$x") "n[0,0]" "y") {}
    let second : Engine SortedStore := .new (Store.insert (Store.insert (Store.insert
      (∅ : SortedStore) "@two(x)" "$x$x") "n[0,0]" "y") "n[0,1]" "x") {}
    let script := "@cleararray(n) @two(b) @div(1,0)"
    first.Agrees second ∧ first.ignoresOrder 9 script = true ∧
      (first.runWithin 9 script).output = some "bb" ∧
      (first.runWithin 9 script).Ended ∧ (second.runWithin 99 script).Ended ∧
      (first.runWithin 9 script).Agrees (second.runWithin 99 script) := by
  intro first second script
  have hagrees : first.Agrees second := by
    refine ⟨fun key => ?_, rfl, rfl, rfl, rfl, rfl⟩
    have hempty : Store.get? Dictionary.empty key = Store.get? (∅ : SortedStore) key := rfl
    simp only [first, second, Engine.new, LawfulStore.get?_insert, hempty]
    grind
  have hignores : first.ignoresOrder 9 script = true := by decide +kernel
  have hfailed : (first.runWithin 9 script).result =
      .error (.failed ⟨.divisionByZero, some ⟨23, 5⟩, [script]⟩) := by decide +kernel
  have hended := Outcome.ended_of_failed hfailed
  have hsecond := stores_are_interchangeable hagrees hended hignores (by decide : 9 ≤ 99)
  exact ⟨hagrees, hignores, by decide +kernel, hended, hsecond⟩

-- A loop over keys tells apart dictionaries that were filled in different orders, and so does a
-- call that several keys match.
example :
    let first := Engine.new ((Dictionary.empty.insert "@g(x)" "b").insert "@g(" "a") {}
    let second := Engine.new ((Dictionary.empty.insert "@g(" "a").insert "@g(x)" "b") {}
    ∀ found ∈ [("@foreachkey(k,\"@g\") $k @endforeachkey", "(x)(", "((x)"),
        ("@g(y)", "b", "")],
      first.ignoresOrder 9 found.1 = false ∧
        (first.runWithin 9 found.1).output = some found.2.1 ∧
        (second.runWithin 9 found.1).output = some found.2.2 := by
  decide +kernel

end AtScript
