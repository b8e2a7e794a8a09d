import AtScript.Proofs.Lockstep
import AtScript.Proofs.LoopValues

/-! # Commands in lockstep

Whatever a command does on one list of tokens it does on another list that is in step with it. The
commands it contains are run by runners that follow one another.
-/

namespace AtScript

variable {S : Type} [Store S] {tolerance : Tolerance}

namespace Primitive

open Exec

variable {span span' : Span}

theorem items_follows (hnear : tolerance.near span span') (name : String) :
    Follows (S := S) tolerance Eq (items span name) (items span' name) :=
  .bind_eq (.refl store) fun _ => .ofValue hnear _

theorem onList_follows (hnear : tolerance.near span span') (command : ListCommand)
    (arguments : List String) :
    Follows (S := S) tolerance Eq (onList span command arguments)
      (onList span' command arguments) := by
  unfold onList
  split
  case h_1 => exact .refl _
  case h_2 => exact .bind_eq (items_follows hnear _) fun _ => .refl _
  case h_4 => exact .bind_eq (items_follows hnear _) fun _ => .refl _
  case h_8 => exact .refl _
  all_goals
    refine .bind_eq (items_follows hnear _) fun texts => ?_
    exact .bind_eq (.ofFault hnear _) fun index => .refl _

theorem onArray_follows (hnear : tolerance.near span span') (command : ArrayCommand)
    (arguments : List String) :
    Follows (S := S) tolerance Eq (onArray span command arguments)
      (onArray span' command arguments) := by
  unfold onArray
  split
  case h_1 => exact .refl _
  case h_4 => exact .refl _
  all_goals
    refine .bind_eq (.ofFault hnear _) fun row => ?_
    exact .bind_eq (.ofFault hnear _) fun column => .refl _

theorem update_follows (hnear : tolerance.near span span') (operation : Arithmetic)
    (key operand : String) :
    Follows (S := S) tolerance Eq (update span operation key operand)
      (update span' operation key operand) := by
  refine .bind_eq (.refl store) fun current => ?_
  refine .bind_eq (.ofValue hnear _) fun number => ?_
  refine .bind_eq (.ofFault hnear _) fun amount => ?_
  exact .bind_eq (.ofFault hnear _) fun result => .refl _

/-- A primitive command does the same wherever it stands, except that it fails there. -/
theorem run_follows (hnear : tolerance.near span span') (keyword : Keyword)
    (arguments : List String) :
    Follows (S := S) tolerance Eq (run span keyword arguments) (run span' keyword arguments) := by
  unfold run
  split
  case h_4 => exact update_follows hnear _ _ _
  case h_10 => exact .bind_eq (.ofFault hnear _) fun _ => .refl _
  case h_11 => exact .bind_eq (.ofFault hnear _) fun _ => .refl _
  case h_14 => exact onList_follows hnear _ _
  case h_15 => exact onArray_follows hnear _ _
  case h_16 => exact .bind_eq (.ofFault hnear _) fun _ => .refl _
  all_goals exact .refl _

end Primitive

namespace Exec

variable {run run' : Runner S} {remaining : List Token → List Token → Prop}

omit [Store S] in
theorem sequence_follows
    (hlength : ∀ tokens tokens', remaining tokens tokens' → tokens.length = tokens'.length)
    (hrun : ∀ tokens tokens', remaining tokens tokens' →
      Follows tolerance remaining (run tokens) (run' tokens'))
    {budget budget' : Nat} (hbudget : tolerance.Affords budget budget')
    {tokens tokens' : List Token} (htokens : remaining tokens tokens') :
    Follows tolerance Eq (sequence run budget tokens) (sequence run' budget' tokens') := by
  induction budget generalizing budget' tokens tokens' with
  | zero =>
      have hsame := hlength _ _ htokens
      cases tokens with
      | nil =>
          obtain rfl := List.eq_nil_of_length_eq_zero hsame.symm
          simp only [sequence]
          exact .pure rfl
      | cons token rest =>
          obtain ⟨token', rest', rfl⟩ := List.exists_cons_of_length_eq_add_one hsame.symm
          exact .outOfFuel _ hbudget _ (by rintro rfl; rfl)
  | succ budget ih =>
      obtain ⟨budget', rfl, hless⟩ := hbudget.pred
      have hsame := hlength _ _ htokens
      cases tokens with
      | nil =>
          obtain rfl := List.eq_nil_of_length_eq_zero hsame.symm
          simp only [sequence]
          exact .pure rfl
      | cons token rest =>
          obtain ⟨token', rest', rfl⟩ := List.exists_cons_of_length_eq_add_one hsame.symm
          simp only [sequence]
          exact (hrun _ _ htokens).bind fun after after' hafter => ih hless hafter

omit [Store S] in
/-- Runners that run whole lists alike run nested scripts alike. -/
theorem nested_follows
    (hbody : ∀ body body', List.Forall₂ tolerance.SameToken body body' →
      Follows tolerance Eq (sequenceAll run body) (sequenceAll run' body')) (script : String) :
    Follows tolerance Eq (nested run script) (nested run' script) :=
  .nested script (hbody _ _ (List.forall₂_same.mpr fun token _ => .refl token))

theorem builtin_follows (hnested : ∀ script,
      Follows tolerance Eq (nested run script) (nested run' script))
    (keyword : Keyword) {span span' : Span} (hnear : tolerance.near span span')
    (values : List String) :
    Follows tolerance Eq (builtin run keyword span values) (builtin run' keyword span' values) := by
  unfold builtin
  split
  · exact hnested _
  · exact .bind_eq (.refl store) fun current => hnested _
  · refine .bind_eq (.refl store) fun current => ?_
    dsimp only
    split
    · exact hnested _
    · exact .refl _
  · exact Primitive.run_follows hnear _ _

theorem builtinCall_follows {opened : List Token → List Token → Prop}
    (hstep : Lockstep tolerance remaining opened) (hrun : InStep tolerance remaining run run')
    (hnested : ∀ script, Follows tolerance Eq (nested run script) (nested run' script))
    {budget budget' : Nat} (hbudget : tolerance.Affords budget budget') (keyword : Keyword)
    {command command' : Token} (hcommand : tolerance.SameToken command command')
    {rest rest' : List Token} (hrest : remaining rest rest') :
    Follows tolerance remaining (builtinCall budget run keyword command rest)
      (builtinCall budget' run' keyword command' rest') := by
  refine (arguments_follows hstep hrun hcommand hbudget hrest).bind ?_
  rintro ⟨values, after⟩ ⟨_, after'⟩ ⟨rfl, hafter⟩
  refine .bind_eq (checkArity_follows hcommand _ _) fun _ => ?_
  exact .bind_eq (builtin_follows hnested keyword hcommand.near values) fun _ => .pure hafter

theorem storedCall_follows {opened : List Token → List Token → Prop}
    (hstep : Lockstep tolerance remaining opened) (hrun : InStep tolerance remaining run run')
    (hnested : ∀ script, Follows tolerance Eq (nested run script) (nested run' script))
    {budget budget' : Nat} (hbudget : tolerance.Affords budget budget')
    {command command' : Token} (hcommand : tolerance.SameToken command command')
    {rest rest' : List Token} (hrest : remaining rest rest') :
    Follows tolerance remaining (storedCall budget run command rest)
      (storedCall budget' run' command' rest') := by
  refine .bind_eq (.refl store) fun current => ?_
  rw [← hcommand.kind, ← hcommand.text]
  split
  · split
    · exact .fail _ hcommand.near
    · refine (arguments_follows hstep hrun hcommand hbudget hrest).bind ?_
      rintro ⟨values, after⟩ ⟨_, after'⟩ ⟨rfl, hafter⟩
      refine .bind_eq (checkArity_follows hcommand _ _) fun _ => ?_
      exact .bind_eq (hnested _) fun _ => .pure hafter
  · dsimp only
    split
    · exact .fail _ hcommand.near
    · exact .bind_eq (hnested _) fun _ => .pure hrest

omit [Store S] in
theorem chooseBranchWithin_follows (hstep : Lockstep tolerance remaining remaining)
    (hrun : InStep tolerance remaining run run') {ifSpan ifSpan' : Span}
    (hspan : tolerance.near ifSpan ifSpan') {budget budget' : Nat}
    (hbudget : tolerance.Affords budget budget') {count count' : Nat}
    (hcount : tolerance.Affords count count') {tokens tokens' : List Token}
    (htokens : remaining tokens tokens') :
    Follows tolerance remaining (chooseBranchWithin budget run ifSpan count tokens)
      (chooseBranchWithin budget' run' ifSpan' count' tokens') := by
  induction count generalizing count' tokens tokens' with
  | zero => exact .outOfFuel _ hcount _ (by rintro rfl; rfl)
  | succ count ih =>
      obtain ⟨count', rfl, hless⟩ := hcount.pred
      refine (conditionFrom_follows hstep hrun hspan hbudget {} htokens).bind ?_
      rintro ⟨holds, body⟩ ⟨_, body'⟩ ⟨rfl, hbody⟩
      dsimp only at hbody ⊢
      split
      · exact .pure hbody
      · have hend := hstep.branchEnd? 0 hbody
        generalize Nesting.branchEnd? 0 body = found, Nesting.branchEnd? 0 body' = found' at hend ⊢
        cases hend with
        | missing => exact .fail _ hspan
        | excused hexcuses => exact .throw_of_excuses (hexcuses _) _
        | @found value value' hrelated =>
            obtain ⟨kind, after⟩ := value
            obtain ⟨_, after'⟩ := value'
            obtain ⟨rfl, hafter⟩ := hrelated
            cases kind with
            | elseIf => exact ih hless hafter
            | elseWord => exact .pure hafter
            | endIf => exact .pure hafter

omit [Store S] in
/-- The rest of a chain is skipped alike. -/
theorem afterEndIf_follows (hstep : Lockstep tolerance remaining remaining) {span span' : Span}
    (hspan : tolerance.near span span') {rest rest' : List Token} (hrest : remaining rest rest') :
    Follows (S := S) tolerance remaining
      (match Nesting.afterEndIf? rest with
      | some after => pure after
      | none => fail (.imbalance .missingEndIf) span)
      (match Nesting.afterEndIf? rest' with
      | some after => pure after
      | none => fail (.imbalance .missingEndIf) span') := by
  have hend := (hstep.splitAtClose Nesting.ifWord_ne_endIf 0 hrest).map Prod.snd Prod.snd
    fun _ _ hparts => hparts.2
  rw [← Nesting.afterEndIf?, ← Nesting.afterEndIf?] at hend
  generalize Nesting.afterEndIf? rest = found, Nesting.afterEndIf? rest' = found' at hend ⊢
  cases hend with
  | missing => exact .fail _ hspan
  | excused hexcuses => exact .throw_of_excuses (hexcuses _) _
  | found hafter => exact .pure hafter

omit [Store S] in
theorem forEach_follows
    (hbody : ∀ body body', List.Forall₂ tolerance.SameToken body body' →
      Follows tolerance Eq (sequenceAll run body) (sequenceAll run' body'))
    (name : String) {body body' : List Token}
    (hsame : List.Forall₂ tolerance.SameToken body body') (values : List String) :
    Follows tolerance Eq (forEach run name body values) (forEach run' name body' values) := by
  induction values with
  | nil => exact .pure rfl
  | cons value rest ih =>
      exact .bind_eq (hbody _ _ (Tolerance.substitute hsame name value)) fun _ => ih

theorem loopValues_follows (family : LoopFamily) {span span' : Span}
    (hnear : tolerance.near span span') (arguments : List String) :
    Follows (S := S) tolerance Eq (loopValues family span arguments)
      (loopValues family span' arguments) := by
  unfold loopValues
  split
  case h_1 =>
    refine .bind_eq (.ofValue hnear _) fun first => ?_
    exact .bind_eq (.ofValue hnear _) fun last => .refl _
  case h_4 =>
    refine .bind_eq (.refl store) fun current => ?_
    exact .bind_eq (.ofValue hnear _) fun texts => .refl _
  all_goals exact .refl _

theorem loop_follows (hstep : Lockstep tolerance remaining remaining)
    (hrun : InStep tolerance remaining run run')
    (hbody : ∀ body body', List.Forall₂ tolerance.SameToken body body' →
      Follows tolerance Eq (sequenceAll run body) (sequenceAll run' body'))
    {budget budget' : Nat} (hbudget : tolerance.Affords budget budget') (family : LoopFamily)
    {header header' : Token} (hheader : tolerance.SameToken header header')
    {rest rest' : List Token} (hrest : remaining rest rest') :
    Follows tolerance remaining (loop budget run family header rest)
      (loop budget' run' family header' rest') := by
  refine (arguments_follows hstep hrun hheader hbudget hrest).bind ?_
  rintro ⟨values, after⟩ ⟨_, after'⟩ ⟨rfl, hafter⟩
  refine .bind_eq (checkArity_follows hheader _ _) fun _ => ?_
  have hend := hstep.splitAtClose (Nesting.loop_ne_endLoop family) 0 hafter
  rw [← Nesting.loopBody?, ← Nesting.loopBody?] at hend
  dsimp only
  generalize Nesting.loopBody? family after = found, Nesting.loopBody? family after' = found'
    at hend ⊢
  cases hend with
  | missing => exact .fail _ hheader.near
  | excused hexcuses => exact .throw_of_excuses (hexcuses _) _
  | found hrelated =>
      dsimp only
      rw [iterate_eq, iterate_eq]
      refine .bind_eq (.bind_eq (loopValues_follows family hheader.near values) ?_)
        fun _ => .pure hrelated.2
      exact fun found => forEach_follows hbody found.1 hrelated.1 found.2

/-- A keyword without control flow runs on its arguments. -/
theorem commandWith_ordinary (budget : Nat) (run : Runner S) {token : Token} {keyword : Keyword}
    (hrole : token.role = .keyword keyword) (hcontrol : keyword.isControl = false)
    (rest : List Token) :
    commandWith budget run (token :: rest) = builtinCall budget run keyword token rest := by
  cases keyword <;> simp_all [commandWith, Keyword.isControl, Keyword.isStructural]

/-- Commands other than branches and loops stay in step if the commands they contain do. -/
theorem commandWith_inStep {opened : List Token → List Token → Prop}
    (hstep : Lockstep tolerance remaining opened) (hrun : InStep tolerance remaining run run')
    (hnested : ∀ script, Follows tolerance Eq (nested run script) (nested run' script))
    {budget budget' : Nat} (hbudget : tolerance.Affords budget budget') :
    InStep tolerance remaining (commandWith budget run) (commandWith budget' run') := by
  intro token rest tokens htokens hcontrol
  obtain ⟨token', rest', rfl, hsame, -, hrest⟩ := hstep.cons htokens
  have hrest := hrest (conditionRole_ne_ending hcontrol)
  have hrole' := hsame.role_eq.symm
  cases hrole : token.role with
  | comma =>
      simp only [commandWith, hrole', hrole, ← hsame.text]
      exact .fail _ hsame.near
  | close =>
      simp only [commandWith, hrole', hrole]
      exact .fail _ hsame.near
  | literal value =>
      simp only [commandWith, hrole', hrole]
      exact .bind_eq (.refl (write value)) fun _ => .pure hrest
  | keyword keyword =>
      have hordinary : keyword.isControl = false := by simpa [Token.isControl, hrole] using hcontrol
      rw [commandWith_ordinary budget run hrole hordinary,
        commandWith_ordinary budget' run' (hrole'.trans hrole) hordinary]
      exact builtinCall_follows hstep hrun hnested hbudget keyword hsame hrest
  | stored =>
      simp only [commandWith, hrole', hrole]
      exact storedCall_follows hstep hrun hnested hbudget hsame hrest

/-- Where THEN is a token like any other, branches and loops stay in step as well. -/
theorem commandWith_follows (hstep : Lockstep tolerance remaining remaining)
    (hrun : InStep tolerance remaining run run')
    (hbody : ∀ body body', List.Forall₂ tolerance.SameToken body body' →
      Follows tolerance Eq (sequenceAll run body) (sequenceAll run' body'))
    {budget budget' : Nat} (hbudget : tolerance.Affords budget budget')
    {tokens tokens' : List Token} (htokens : remaining tokens tokens') :
    Follows tolerance remaining (commandWith budget run tokens)
      (commandWith budget' run' tokens') := by
  cases tokens with
  | nil =>
      rcases hstep.nil htokens with rfl | hexcuses
      · exact .throw .defect
      · exact .throw_of_excuses (hexcuses _) _
  | cons token rest =>
      have hordinary := commandWith_inStep hstep hrun (nested_follows hbody) hbudget token rest _
        htokens
      obtain ⟨token', rest', rfl, hsame, hrest⟩ := hstep.cons_same htokens
      have hrole' := hsame.role_eq.symm
      cases hrole : token.role with
      | keyword keyword =>
          cases keyword with
          | branch part =>
              cases part with
              | ifWord =>
                  simp only [commandWith, hrole', hrole]
                  exact chooseBranchWithin_follows hstep hrun hsame.near hbudget hbudget hrest
              | thenWord =>
                  simp only [commandWith, hrole', hrole]
                  exact .fail _ hsame.near
              | endIf =>
                  simp only [commandWith, hrole', hrole]
                  exact .pure hrest
              | elseIf | elseWord =>
                  simp only [commandWith, hrole', hrole]
                  exact afterEndIf_follows hstep hsame.near hrest
          | connector word =>
              simp only [commandWith, hrole', hrole]
              exact .fail _ hsame.near
          | loop family =>
              simp only [commandWith, hrole', hrole]
              exact loop_follows hstep hrun hbody hbudget family hsame hrest
          | endLoop family =>
              simp only [commandWith, hrole', hrole]
              exact .fail _ hsame.near
          | _ => exact hordinary (by simp [Token.isControl, hrole, Keyword.isControl,
              Keyword.isStructural])
      | _ => exact hordinary (by simp [Token.isControl, hrole])

end Exec

end AtScript
