import AtScript.Proofs.Counters
import AtScript.Proofs.GuardedMachine
import AtScript.Proofs.Refinement

/-! # Runs do not break

Every command of the machine refines the command that it is named after, where the cursor stands at
the tokens that the plain command is given.
-/

namespace AtScript

namespace Guarded

variable {S α : Type} [Store S]

/-! ## Cursors -/

/-- A cursor that stands at some tokens of a list. -/
structure At (tokens : List Token) (place : Nat) (rest : List Token) : Prop where
  inside : place ≤ tokens.length
  drop : tokens.drop place = rest

section

omit [Store S]

variable {tokens rest : List Token} {place : Nat} {token : Token}

theorem At.getElem? (hat : At tokens place (token :: rest)) : tokens[place]? = some token := by
  rw [← List.head?_drop, hat.drop, List.head?_cons]

theorem At.lt_length (hat : At tokens place (token :: rest)) : place < tokens.length :=
  (List.getElem?_eq_some_iff.mp hat.getElem?).1

theorem At.next (hat : At tokens place (token :: rest)) : At tokens (place + 1) rest where
  inside := hat.lt_length
  drop := by rw [← List.drop_drop, hat.drop, List.drop_one, List.tail_cons]

theorem At.eq_length (hat : At tokens place []) : place = tokens.length :=
  Nat.le_antisymm hat.inside (List.drop_eq_nil_iff.mp hat.drop)

theorem At.getElem?_nil (hat : At tokens place []) : tokens[place]? = none := by
  rw [hat.eq_length]
  exact List.getElem?_eq_none_iff.mpr (Nat.le_refl _)

theorem At.start (tokens : List Token) : At tokens 0 tokens :=
  ⟨Nat.zero_le _, rfl⟩

/-- A cursor after what is found behind it. -/
theorem At.behind {before : List Token} {last : Token}
    (hat : At tokens place (before ++ last :: rest)) :
    At tokens (place + before.length + 1) rest ∧ place + before.length < tokens.length := by
  obtain ⟨hdrop, hlast⟩ := Nesting.drop_of_drop_eq hat.drop
  exact ⟨⟨hlast, hdrop⟩, hlast⟩

/-- The blocks that can be open behind a cursor are few enough for a word. -/
theorem At.fits (hat : At tokens place rest) (hshort : tokens.length < UInt32.size) :
    0 + rest.length < UInt64.size := by
  have hlength : rest.length ≤ tokens.length := by
    rw [← hat.drop, List.length_drop]
    exact Nat.sub_le _ _
  have hword : UInt64.size = 2 ^ 64 := rfl
  have hhalf : UInt32.size = 2 ^ 32 := rfl
  omega

/-- The tokens between two places. -/
theorem At.slice? {body : List Token} (hat : At tokens place (body ++ rest)) :
    Machine.slice? tokens place (place + body.length) = some body := by
  have hlength := congrArg List.length hat.drop
  rw [List.length_drop, List.length_append] at hlength
  have hinside := hat.inside
  rw [Machine.slice?, if_pos ⟨Nat.le_add_right _ _, by omega⟩, Nat.add_sub_cancel_left, hat.drop,
    List.take_left]

theorem advance_eq (hshort : tokens.length < UInt32.size) (hplace : place < tokens.length) :
    (advance place : Guarded S Nat) = pure (place + 1) := by
  rw [advance, Machine.size?_of_lt, expect_some]
  have hword : UInt64.size = 2 ^ 64 := rfl
  have hhalf : UInt32.size = 2 ^ 32 := rfl
  omega

end

/-- A way to run commands by cursor that refines another one, where the cursor stands at a token of
a list whose places fit their words. -/
def Tracks (depth : Nat) (cursor : Cursor S) (run : Runner S) : Prop :=
  ∀ {tokens rest : List Token} {place : Nat} {token : Token}, tokens.length < UInt32.size →
    At tokens place (token :: rest) →
    Refines depth (At tokens) (cursor tokens place) (run (token :: rest))

section

variable {depth : Nat} {cursor : Cursor S} {run : Runner S} {tokens rest : List Token}
  {place : Nat}

omit [Store S]

/-- The relation between what is evaluated by cursor and without. -/
def SameUpTo (tokens : List Token) (value : α × Nat) (value' : α × List Token) : Prop :=
  value.1 = value'.1 ∧ At tokens value.2 value'.2

variable (htracks : Tracks depth cursor run) (hshort : tokens.length < UInt32.size)

include htracks hshort

theorem sequence_refines (budget : Nat) (hat : At tokens place rest) :
    Refines depth (fun _ _ => True) (sequence cursor tokens budget place)
      (Exec.sequence run budget rest) := by
  induction budget generalizing place rest with
  | zero =>
      cases rest with
      | nil =>
          rw [sequence, if_neg (Nat.not_lt.mpr (Nat.le_of_eq hat.eq_length.symm))]
          exact .pure trivial
      | cons token rest =>
          rw [sequence, if_pos hat.lt_length]
          exact .outOfFuel
  | succ budget ih =>
      cases rest with
      | nil =>
          rw [sequence, if_neg (Nat.not_lt.mpr (Nat.le_of_eq hat.eq_length.symm))]
          exact .pure trivial
      | cons token rest =>
          rw [sequence, if_pos hat.lt_length]
          refine (htracks hshort hat).bind fun after after' hafter => ?_
          exact ih hafter

theorem sequenceAll_refines :
    Refines depth (fun _ _ => True) (sequenceAll cursor tokens) (Exec.sequenceAll run tokens) :=
  sequence_refines htracks hshort tokens.length (.start tokens)

theorem forEach_refines (name : String) (values : List String) :
    Refines depth (fun _ _ => True) (forEach cursor name tokens values)
      (Exec.forEach run name tokens values) := by
  induction values with
  | nil => exact .pure trivial
  | cons value rest ih =>
      refine (sequenceAll_refines htracks ?_).bind fun _ _ _ => ih
      rw [Exec.substitute, List.length_map]
      exact hshort

theorem argumentsFrom_refines (opener : Token) (budget : Nat) (part : String) (begun : Bool)
    (hat : At tokens place rest) :
    Refines depth (SameUpTo tokens) (argumentsFrom cursor opener tokens budget part begun place)
      (Exec.argumentsFrom run opener budget part begun rest) := by
  induction budget generalizing part begun place rest with
  | zero => exact .outOfFuel
  | succ budget ih =>
      cases rest with
      | nil =>
          simp only [argumentsFrom, Exec.argumentsFrom, hat.getElem?_nil]
          exact .fail _ _
      | cons token rest =>
          have hadvance : (advance place : Guarded S Nat) = Pure.pure (place + 1) :=
            advance_eq hshort hat.lt_length
          cases hrole : token.role with
          | comma =>
              simp only [argumentsFrom, Exec.argumentsFrom, hat.getElem?, hrole, hadvance,
                pure_bind]
              refine (ih "" true hat.next).bind ?_
              rintro ⟨others, after⟩ ⟨others', after'⟩ ⟨rfl, hafter⟩
              exact .pure ⟨rfl, hafter⟩
          | close =>
              simp only [argumentsFrom, Exec.argumentsFrom, hat.getElem?, hrole, hadvance,
                pure_bind]
              exact .pure ⟨rfl, hat.next⟩
          | literal value =>
              simp only [argumentsFrom, Exec.argumentsFrom, hat.getElem?, hrole, hadvance,
                pure_bind]
              exact ih _ true hat.next
          | keyword keyword =>
              simp only [argumentsFrom, Exec.argumentsFrom, hat.getElem?, hrole, isControl_eq,
                pure_bind]
              cases keyword.isControl with
              | true => exact .fail _ _
              | false =>
                  refine (htracks hshort hat).capture.bind ?_
                  rintro ⟨after, text⟩ ⟨after', text'⟩ ⟨hafter, rfl⟩
                  exact ih _ true hafter
          | stored =>
              simp only [argumentsFrom, Exec.argumentsFrom, hat.getElem?, hrole]
              refine (htracks hshort hat).capture.bind ?_
              rintro ⟨after, text⟩ ⟨after', text'⟩ ⟨hafter, rfl⟩
              exact ih _ true hafter

theorem arguments_refines (budget : Nat) {command : Token}
    (hat : At tokens place (command :: rest)) :
    Refines depth (SameUpTo tokens) (arguments budget cursor tokens place)
      (Exec.arguments budget run command rest) := by
  simp only [arguments, Exec.arguments, hat.getElem?, expect_some, pure_bind,
    advance_eq hshort hat.lt_length]
  split
  · exact argumentsFrom_refines htracks hshort command budget "" false hat.next
  · exact .pure ⟨rfl, hat.next⟩

end

/-! ## Conditions -/

section

variable {depth : Nat} {cursor : Cursor S} {run : Runner S} {tokens rest : List Token}
  {place : Nat}

omit [Store S] in
theorem conditionRole_eq (token : Token) :
    (conditionRole token : Guarded S Exec.ConditionRole) = pure (Exec.conditionRole token) := by
  unfold conditionRole Exec.conditionRole
  cases token.role with
  | keyword keyword =>
      cases keyword with
      | branch part => cases part <;> rfl
      | connector word => cases word <;> rfl
      | _ => simp only [isControl_eq, pure_bind]
  | _ => rfl

variable (htracks : Tracks depth cursor run) (hshort : tokens.length < UInt32.size)

include htracks hshort

omit [Store S] in
theorem conditionPart_refines {token : Token} (hat : At tokens place (token :: rest)) :
    Refines depth (fun value value' => At tokens value.1 value'.1 ∧ value.2 = value'.2)
      (conditionPart cursor token tokens place) (Exec.conditionPart run token rest) := by
  unfold conditionPart Exec.conditionPart
  split
  · rw [advance_eq hshort hat.lt_length, pure_bind]
    exact .pure ⟨hat.next, rfl⟩
  · exact (htracks hshort hat).capture

theorem conditionFrom_refines (ifSpan : Span) (budget : Nat) (condition : Exec.PartialCondition)
    (hat : At tokens place rest) :
    Refines depth (SameUpTo tokens) (conditionFrom cursor ifSpan tokens budget condition place)
      (Exec.conditionFrom run ifSpan budget condition rest) := by
  induction budget generalizing condition place rest with
  | zero => exact .outOfFuel
  | succ budget ih =>
      cases rest with
      | nil =>
          simp only [conditionFrom, Exec.conditionFrom, hat.getElem?_nil]
          exact .fail _ _
      | cons token rest =>
          have hadvance : (advance place : Guarded S Nat) = Pure.pure (place + 1) :=
            advance_eq hshort hat.lt_length
          simp only [conditionFrom, Exec.conditionFrom, hat.getElem?, conditionRole_eq, pure_bind,
            hadvance]
          cases Exec.conditionRole token with
          | refused => exact .fail _ _
          | ending =>
              dsimp only
              split
              · exact .fail _ _
              · exact .pure ⟨rfl, hat.next⟩
          | negation => exact ih _ hat.next
          | connector conjunction =>
              dsimp only
              split
              · exact .fail _ _
              · exact ih _ hat.next
          | part =>
              dsimp only
              split
              · refine (conditionPart_refines htracks hshort hat).bind ?_
                rintro ⟨after, text⟩ ⟨after', text'⟩ ⟨hafter, rfl⟩
                refine (ofValue_refines _ _).bind ?_
                rintro part _ rfl
                exact ih _ hafter
              · exact .fail _ _

theorem chooseBranchWithin_refines (ifSpan : Span) (budget count : Nat)
    (hat : At tokens place rest) :
    Refines depth (At tokens) (chooseBranchWithin budget cursor ifSpan tokens count place)
      (Exec.chooseBranchWithin budget run ifSpan count rest) := by
  induction count generalizing place rest with
  | zero => exact .outOfFuel
  | succ count ih =>
      refine (conditionFrom_refines htracks hshort ifSpan budget {} hat).bind ?_
      rintro ⟨holds, start⟩ ⟨_, body⟩ ⟨rfl, hbody⟩
      cases holds with
      | true => exact .pure hbody
      | false =>
          obtain ⟨found, hfound, hfinds⟩ := Nesting.branchEndAt?_eq start (hbody.fits hshort)
          simp only [Bool.false_eq_true, if_false, Nesting.skipBranch?, hbody.drop, hfound,
            expect_some, pure_bind]
          generalize Nesting.branchEnd? 0 body = found' at hfinds
          cases hfinds with
          | missing => exact .fail _ _
          | @found kind before after last htokens =>
              obtain ⟨hafter, hlast⟩ := At.behind (htokens ▸ hbody)
              have hadvance := advance_eq (S := S) hshort hlast
              cases kind with
              | elseIf =>
                  simp only [hadvance, pure_bind]
                  exact ih hafter
              | elseWord | endIf =>
                  simp only [hadvance]
                  exact .pure hafter

end

/-! ## Nested scripts -/

section

variable {depth : Nat} {cursor : Cursor S} {run : Runner S}

omit [Store S]

section

variable {script : String} {frame after : Frame S} (hlimit : frame.exceededLimit? = none)
  (hsize : script.utf8ByteSize < UInt32.size) (hword : frame.engine.depth + 1 < UInt64.size)

include hlimit hsize hword

/-- A script that is entered is left as its tokens are run. -/
theorem nested_of_ok
    (hscript : sequenceAll cursor (Token.scan script) frame.enter = .ok () after) :
    nested cursor script frame = leave (.ok ()) after := by
  simp only [nested, hlimit, if_pos hsize, Machine.size?_of_lt hword, Token.scan?_eq hsize,
    hscript]

theorem nested_of_error {halt : Halt}
    (hscript : sequenceAll cursor (Token.scan script) frame.enter = .error halt after) :
    nested cursor script frame = leave (.error (halt.inScript script)) after := by
  simp only [nested, hlimit, if_pos hsize, Machine.size?_of_lt hword, Token.scan?_eq hsize,
    hscript]

end

theorem nested_refines (htracks : Tracks (depth + 1) cursor run) (hroom : depth + 1 < UInt64.size)
    (script : String) :
    Refines depth (fun _ _ => True) (nested cursor script) (Exec.nested run script) := by
  intro frame hdepth
  cases hlimit : frame.exceededLimit? with
  | some limit =>
      refine .error (.failed ⟨.tooDeep limit, none, [script]⟩) frame nofun (.refl frame) ?_ ?_
      · simp only [nested, hlimit]
        rfl
      · exact Exec.nested_of_exceeded run hlimit
  | none =>
      by_cases hsize : script.utf8ByteSize < UInt32.size
      · have hshort : (Token.scan script).length < UInt32.size :=
          Nat.lt_of_le_of_lt (Token.length_scan_le script) hsize
        have henter : frame.enter.engine.depth = depth + 1 := congrArg (· + 1) hdepth
        have hword : frame.engine.depth + 1 < UInt64.size := hdepth ▸ hroom
        cases sequenceAll_refines htracks hshort frame.enter henter with
        | ok _ _ after _ hlevel hguarded hplain =>
            refine .ok () () (after.atDepth frame.engine.depth) trivial hlevel.atDepth ?_
              (Exec.nested_ok_of_sameLevel hlimit hplain hlevel)
            rw [nested_of_ok hlimit hsize hword hguarded]
            simp only [leave, Frame.leave?_of_depth hlevel.depth]
        | error stop after hstop hlevel hguarded hplain =>
            refine .error (stop.map (·.inScript script)) (after.atDepth frame.engine.depth) ?_
              hlevel.atDepth ?_ (Exec.nested_error_of_sameLevel hlimit hplain hlevel)
            · exact Stop.map_ne_defect hstop _
            · rw [nested_of_error hlimit hsize hword hguarded]
              simp only [leave, Frame.leave?_of_depth hlevel.depth]
              cases stop <;> rfl
        | oversized long after hlong hlevel hguarded =>
            refine .oversized long (after.atDepth frame.engine.depth) hlong hlevel.atDepth ?_
            rw [nested_of_error hlimit hsize hword hguarded]
            simp only [leave, Frame.leave?_of_depth hlevel.depth]
            rfl
      · refine .oversized script frame (Nat.not_lt.mp hsize) (.refl frame) ?_
        simp only [nested, hlimit, if_neg hsize]

end

/-! ## Commands -/

section

variable {depth : Nat} {cursor : Cursor S} {run : Runner S} {tokens rest : List Token}
  {place : Nat} {token : Token}

theorem checkArity_refines (command : Token) (keyword : Keyword) (found : Nat) :
    Refines (S := S) depth (fun _ _ => keyword.arity.accepts found = true)
      (checkArity command keyword found) (Exec.checkArity command keyword.arity found) := by
  rw [checkArity_eq]
  have hplain : (defectFree fun _ => True).holds (S := S)
      (fun _ => keyword.arity.accepts found = true)
      (Exec.checkArity command keyword.arity found) :=
    (defectFree fun _ => True).checkArity trivial keyword.arity found
  exact (hplain depth).mono fun _ _ hsame => hsame.2

theorem loopValues_eq {family : LoopFamily} {arguments : List String} (span : Span)
    (haccepts : (Keyword.loop family).arity.accepts arguments.length = true) :
    loopValues (.loop family) span arguments =
      lift (S := S) (Exec.loopValues family span arguments) := by
  cases family with
  | range =>
      obtain ⟨name, low, high, rfl⟩ := Arity.three_arguments haccepts
      simp only [loopValues, Exec.loopValues, lift_bind, lift_pure, argument_zero, argument_succ,
        pure_bind]
  | keys =>
      rcases Arity.two_or_three_arguments haccepts with ⟨name, start, rfl⟩ |
        ⟨name, start, ending, rfl⟩
      · rfl
      · rfl
  | items =>
      obtain ⟨name, list, rfl⟩ := Arity.two_arguments haccepts
      simp only [loopValues, Exec.loopValues, lift_bind, lift_pure, argument_zero, argument_succ,
        pure_bind, store]

theorem loopEnd?_eq (family : LoopFamily) (hshort : tokens.length < UInt32.size)
    (hat : At tokens place rest) :
    Nesting.loopEnd? (.loop family) tokens place =
      some ((Nesting.loopBody? family rest).map fun parts => place + parts.1.length) := by
  have hclose := Nesting.closeAt?_eq (Nesting.loop_ne_endLoop family) place (hat.fits hshort)
  rw [← hat.drop] at hclose ⊢
  exact hclose

theorem loop_refines (htracks : Tracks depth cursor run) (hshort : tokens.length < UInt32.size)
    (budget : Nat) (family : LoopFamily) (hat : At tokens place (token :: rest)) :
    Refines depth (At tokens) (loop budget cursor family tokens place)
      (Exec.loop budget run family token rest) := by
  simp only [loop, hat.getElem?, expect_some, pure_bind]
  refine (arguments_refines htracks hshort budget hat).bind ?_
  rintro ⟨values, start⟩ ⟨_, behind⟩ ⟨rfl, hbehind⟩
  refine (checkArity_refines token (.loop family) values.length).bind fun _ _ haccepts => ?_
  simp only [loopEnd?_eq family hshort hbehind, expect_some, pure_bind]
  cases hbody : Nesting.loopBody? family behind with
  | none => exact .fail _ _
  | some parts =>
      obtain ⟨body, after⟩ := parts
      obtain ⟨last, htokens⟩ := Nesting.eq_append_of_loopBody? hbody
      have hstart : At tokens start (body ++ last :: after) := htokens ▸ hbehind
      obtain ⟨hafter, hlast⟩ := hstart.behind
      -- A body is shorter than the list it is cut from, so its places fit their words as well.
      have hbodyShort : body.length < UInt32.size := by omega
      simp only [Option.map_some, advance_eq hshort hlast, hstart.slice?, expect_some, pure_bind,
        Exec.iterate_eq, bind_assoc, loopValues_eq token.span haccepts]
      refine ((defectFree fun _ => True).loopValues trivial haccepts depth).bind ?_
      rintro ⟨name, items⟩ _ ⟨rfl, -⟩
      exact (forEach_refines htracks hbodyShort name items).bind fun _ _ _ => .pure hafter

theorem control_refines (htracks : Tracks depth cursor run) (hshort : tokens.length < UInt32.size)
    (budget : Nat) {keyword : Keyword} (hcontrol : keyword.isControl = true)
    (hat : At tokens place (token :: rest)) (hrole : token.role = .keyword keyword) :
    Refines depth (At tokens) (control budget cursor keyword tokens place)
      (Exec.commandWith budget run (token :: rest)) := by
  have hadvance : (advance place : Guarded S Nat) = Pure.pure (place + 1) :=
    advance_eq hshort hat.lt_length
  have hbudget : (tokens.drop (place + 1)).length < tokens.length + 1 := by
    rw [List.length_drop]
    omega
  have hends := Nesting.skipToEndIf?_eq (hshort.trans (by decide)) hbudget
  rw [hat.next.drop] at hends
  cases keyword with
  | branch part =>
      cases part with
      | ifWord =>
          simp only [control, Exec.commandWith, hrole, hat.getElem?, expect_some, pure_bind,
            hadvance]
          exact chooseBranchWithin_refines htracks hshort token.span budget budget hat.next
      | thenWord =>
          simp only [control, Exec.commandWith, hrole, hat.getElem?, expect_some, pure_bind]
          exact .fail _ _
      | endIf =>
          simp only [control, Exec.commandWith, hrole, hat.getElem?, expect_some, pure_bind,
            hadvance]
          exact .pure hat.next
      | elseIf | elseWord =>
          simp only [control, Exec.commandWith, hrole, hat.getElem?, expect_some, pure_bind,
            hadvance]
          rcases hends with ⟨hplain, hskip⟩ | ⟨before, last, after, htokens, hplain, hskip⟩
          · simp only [hplain, hskip, expect_some, pure_bind]
            exact .fail _ _
          · obtain ⟨hafter, hlast⟩ := At.behind (htokens ▸ hat.next)
            simp only [hplain, hskip, expect_some, pure_bind, advance_eq hshort hlast]
            exact .pure hafter
  | loop family =>
      simp only [control, Exec.commandWith, hrole, hat.getElem?, expect_some, pure_bind]
      exact loop_refines htracks hshort budget family hat
  | connector word =>
      simp only [control, Exec.commandWith, hrole, hat.getElem?, expect_some, pure_bind]
      exact .fail _ _
  | endLoop family =>
      simp only [control, Exec.commandWith, hrole, hat.getElem?, expect_some, pure_bind]
      exact .fail _ _
  | _ => cases hcontrol

end

/-! ## Keywords and stored scripts -/

section

variable {depth : Nat} {cursor : Cursor S} {run : Runner S} {tokens rest : List Token}
  {place : Nat} {token : Token}
  (hscripts : ∀ script,
    Refines depth (fun _ _ => True) (nested cursor script) (Exec.nested run script))

include hscripts

theorem builtin_refines {keyword : Keyword} (hcontrol : keyword.isControl = false) (span : Span)
    {values : List String} (haccepts : keyword.arity.accepts values.length = true) :
    Refines depth (fun _ _ => True) (builtin cursor keyword span values)
      (Exec.builtin run keyword span values) := by
  cases hkeyword : keyword.runsScript with
  | false =>
      have hprimitive : Refines (S := S) depth (fun _ _ => True) (primitive span keyword values)
          (Primitive.run span keyword values) := by
        rw [primitive_eq span hcontrol hkeyword haccepts]
        refine ((defectFree fun _ => True).primitive trivial hcontrol hkeyword haccepts
          depth).mono ?_
        exact fun _ _ _ => trivial
      cases keyword <;> first | exact hprimitive | cases hkeyword
  | true =>
      cases keyword with
      | exec =>
          obtain ⟨script, rfl⟩ := Arity.one_argument haccepts
          exact hscripts script
      | script =>
          obtain ⟨key, rfl⟩ := Arity.one_argument haccepts
          simp only [builtin, Exec.builtin, argument_zero, pure_bind]
          refine store_refines.bind ?_
          rintro current _ rfl
          exact hscripts _
      | getValue =>
          obtain ⟨key, rfl⟩ := Arity.one_argument haccepts
          simp only [builtin, Exec.builtin, argument_zero, pure_bind]
          refine store_refines.bind ?_
          rintro current _ rfl
          split
          · exact hscripts _
          · exact ((defectFree fun _ => True).write _ depth).mono fun _ _ _ => trivial
      | _ => cases hkeyword

theorem storedCall_refines (htracks : Tracks depth cursor run)
    (hshort : tokens.length < UInt32.size) (budget : Nat) (hat : At tokens place (token :: rest)) :
    Refines depth (At tokens) (storedCall budget cursor tokens place)
      (Exec.storedCall budget run token rest) := by
  simp only [storedCall, hat.getElem?, expect_some, pure_bind]
  refine store_refines.bind ?_
  rintro current _ rfl
  split
  · cases hentries : Store.entriesFrom current token.text with
    | nil => exact .fail _ _
    | cons entry others =>
        refine (arguments_refines htracks hshort budget hat).bind ?_
        rintro ⟨values, after⟩ ⟨_, after'⟩ ⟨rfl, hafter⟩
        refine ((defectFree fun _ => True).checkArity trivial _ _ depth).bind fun _ _ _ => ?_
        exact (hscripts _).bind fun _ _ _ => .pure hafter
  · dsimp only
    split
    · exact .fail _ _
    · rw [advance_eq hshort hat.lt_length, pure_bind]
      exact (hscripts _).bind fun _ _ _ => .pure hat.next

theorem commandWith_refines (htracks : Tracks depth cursor run) (budget : Nat) :
    Tracks depth (commandWith budget cursor) (Exec.commandWith budget run) := by
  intro tokens rest place token hshort hat
  have hadvance : (advance place : Guarded S Nat) = Pure.pure (place + 1) :=
    advance_eq hshort hat.lt_length
  cases hrole : token.role with
  | comma | close =>
      simp only [commandWith, Exec.commandWith, hat.getElem?, expect_some, pure_bind, hrole]
      exact .fail _ _
  | literal value =>
      simp only [commandWith, Exec.commandWith, hat.getElem?, expect_some, pure_bind, hrole,
        hadvance]
      refine ((defectFree fun _ => True).write value depth).bind fun _ _ _ => ?_
      exact .pure hat.next
  | stored =>
      simp only [commandWith, Exec.commandWith, hat.getElem?, expect_some, pure_bind, hrole]
      exact storedCall_refines hscripts htracks hshort budget hat
  | keyword keyword =>
      simp only [commandWith, hat.getElem?, expect_some, pure_bind, hrole, isControl_eq]
      cases hcontrol : keyword.isControl with
      | true =>
          rw [if_pos rfl]
          exact control_refines htracks hshort budget hcontrol hat hrole
      | false =>
          rw [if_neg Bool.false_ne_true, Exec.commandWith_ordinary _ _ hrole hcontrol]
          refine (arguments_refines htracks hshort budget hat).bind ?_
          rintro ⟨values, after⟩ ⟨_, after'⟩ ⟨rfl, hafter⟩
          refine (checkArity_refines token keyword values.length).bind fun _ _ haccepts => ?_
          refine (builtin_refines hscripts hcontrol token.span haccepts).bind fun _ _ _ => ?_
          exact .pure hafter

end

/-- Commands are contained in one another no deeper than a word can count. -/
theorem command_tracks {depth fuel : Nat} (hroom : depth + fuel < UInt64.size) :
    Tracks depth (command fuel) (Exec.command (S := S) fuel) := by
  induction fuel generalizing depth with
  | zero => exact fun _ _ => .outOfFuel
  | succ fuel ih =>
      have hscripts (script : String) : Refines (S := S) depth (fun _ _ => True)
          (nested (command fuel) script) (Exec.nested (Exec.command fuel) script) :=
        nested_refines (ih (by omega)) (by omega) script
      have hcommands : Tracks depth (command fuel) (Exec.command (S := S) fuel) := ih (by omega)
      exact @commandWith_refines _ _ depth _ _ hscripts hcommands fuel

end Guarded

/-! ## Runs -/

namespace Engine

variable {S : Type} [Store S]

/-- A run on the machine that can break has the outcome of the run without it. -/
theorem guardedRun_eq {fuel : Nat} {engine : Engine S}
    (hroom : engine.depth + fuel + 1 < UInt64.size) (script : String) :
    engine.guardedRun fuel script = .ok (engine.runWithin fuel script) ∨
      ∃ long : String, UInt32.size ≤ long.utf8ByteSize ∧
        engine.guardedRun fuel script = .error (.oversized long) := by
  rw [guardedRun, runWithin]
  split
  next => exact .inl rfl
  next =>
    have hcommands : Guarded.Tracks (engine.depth + 1) (Guarded.command fuel)
        (Exec.command (S := S) fuel) := Guarded.command_tracks (by omega)
    cases Guarded.nested_refines hcommands (by omega) script ⟨engine, ""⟩ rfl with
    | ok _ _ after _ _ hguarded hplain =>
        rw [hguarded, hplain]
        exact .inl rfl
    | error stop after hstop _ hguarded hplain =>
        rw [hguarded, hplain]
        cases stop with
        | defect => exact absurd rfl hstop
        | failed | outOfFuel | tooLong => exact .inl rfl
    | oversized long after hlong _ hguarded =>
        rw [hguarded]
        exact .inr ⟨long, hlong, rfl⟩

-- The guards are not idle: a cursor outside of its list breaks the machine.
example : (Guarded.command 1 [] 0 : Guarded Dictionary Nat) = throw .broken := rfl

end Engine

end AtScript
