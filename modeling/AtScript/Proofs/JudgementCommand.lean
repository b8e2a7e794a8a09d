import AtScript.Proofs.Judgement
import AtScript.Proofs.LockstepCommand

/-! # Judgements on commands that contain commands

A command hands on what is judged of the commands and scripts it contains. Each kind of command is
taken apart once, for families of runners and budgets; single runners are a family of one member,
and the last statements cover all commands of such a runner.
-/

namespace AtScript

/-! ## What scans leave -/

namespace Nesting

/-- The end of a branch and the tokens after it end the tokens. -/
theorem branchEnd?_suffix {depth : Nat} {tokens : List Token} {found : BranchEnd × List Token}
    (hfound : branchEnd? depth tokens = some found) : ∃ last, last :: found.2 <:+ tokens := by
  induction tokens generalizing depth with
  | nil => simp [branchEnd?] at hfound
  | cons token rest ih =>
      rw [branchEnd?.eq_def] at hfound
      dsimp only at hfound
      split at hfound
      case h_2 | h_4 | h_5 =>
        cases hfound
        exact ⟨token, List.suffix_rfl⟩
      all_goals
        obtain ⟨last, hlast⟩ := ih hfound
        exact ⟨last, hlast.trans (List.suffix_cons token rest)⟩

/-- The body of a loop, its end and the tokens after it make up the tokens. -/
theorem eq_append_of_loopBody? {family : LoopFamily} {tokens body after : List Token}
    (hfound : loopBody? family tokens = some (body, after)) :
    ∃ last, tokens = body ++ last :: after := by
  obtain ⟨last, htokens, -⟩ := (splitAtClose_eq_some_iff (loop_ne_endLoop family)).mp hfound
  exact ⟨last, htokens⟩

/-- The body of a loop has fewer tokens than there are after the loop's arguments. -/
theorem length_lt_of_loopBody? {family : LoopFamily} {tokens body after : List Token}
    (hfound : loopBody? family tokens = some (body, after)) : body.length < tokens.length := by
  obtain ⟨last, rfl⟩ := eq_append_of_loopBody? hfound
  rw [List.length_append, List.length_cons]
  omega

theorem afterEndIf?_suffix {tokens after : List Token} (hfound : afterEndIf? tokens = some after) :
    after <:+ tokens := by
  obtain ⟨⟨body, rest⟩, hparts, rfl⟩ := Option.map_eq_some_iff.mp hfound
  obtain ⟨last, htokens, -⟩ := (splitAtClose_eq_some_iff ifWord_ne_endIf).mp hparts
  exact ⟨body ++ [last], by simpa using htokens.symm⟩

end Nesting

/-! ## Where tokens stand -/

/-- Whether all of some tokens stand at given places. -/
def Placed (places : Span → Prop) (tokens : List Token) : Prop :=
  ∀ token ∈ tokens, places token.span

namespace Placed

variable {places : Span → Prop} {tokens : List Token}

theorem suffix (hplaced : Placed places tokens) {after : List Token} (hafter : after <:+ tokens) :
    Placed places after :=
  fun token hmem => hplaced token (hafter.mem hmem)

/-- Putting a value into tokens leaves them where they are. -/
theorem substitute (hplaced : Placed places tokens) (name value : String) :
    Placed places (Exec.substitute name value tokens) := by
  intro token hmem
  obtain ⟨original, horiginal, rfl⟩ := List.mem_map.mp hmem
  have hspan : (Exec.substituteToken ("$" ++ name) value original).span = original.span := by
    rw [Exec.substituteToken]
    split <;> rfl
  rw [hspan]
  exact hplaced original horiginal

end Placed

/-! ## Parts that contain no command -/

namespace Judgement

open Exec

variable {S : Type} [Store S] {places : Span → Prop} (judgement : Judgement S places)

/-- A command goes on only with as many arguments as it takes. -/
theorem checkArity {command : Token} (hcommand : places command.span) (arity : Arity)
    (found : Nat) :
    judgement.holds (fun _ => arity.accepts found = true) (checkArity command arity found) := by
  rw [Exec.checkArity]
  split
  next haccepts => exact judgement.pure haccepts
  next => exact judgement.fail hcommand rfl

/-- The values of a loop that has as many arguments as it takes. -/
theorem loopValues {span : Span} (hspan : places span) {family : LoopFamily}
    {arguments : List String}
    (haccepts : (Keyword.loop family).arity.accepts arguments.length = true) :
    judgement.holds (fun _ => True) (loopValues family span arguments) := by
  cases family with
  | range =>
      obtain ⟨name, low, high, rfl⟩ := Arity.three_arguments haccepts
      refine judgement.andThen (judgement.ofValue hspan _) fun first => ?_
      exact judgement.andThen (judgement.ofValue hspan _) fun last => judgement.pure trivial
  | keys =>
      rcases Arity.two_or_three_arguments haccepts with ⟨name, start, rfl⟩ |
        ⟨name, start, ending, rfl⟩
      · exact judgement.andThen judgement.store fun current => judgement.pure trivial
      · exact judgement.andThen judgement.store fun current => judgement.pure trivial
  | items =>
      obtain ⟨name, list, rfl⟩ := Arity.two_arguments haccepts
      refine judgement.andThen judgement.store fun current => ?_
      exact judgement.andThen (judgement.ofValue hspan _) fun texts => judgement.pure trivial

end Judgement

/-! ## Families of computations -/

open Exec in
/-- A judgement on families of computations, such as those that differ in their fuel alone. A member
that has no step left stops; how many steps are enough is part of the judgement. -/
structure FamilyJudgement (S : Type) [Store S] (places : Span → Prop) (ι : Type) where
  holds : {α : Type} → (α → Prop) → (ι → Exec S α) → Prop
  /-- Whether budgets are enough for a number of steps. -/
  affords : (ι → Nat) → Nat → Prop
  pure : ∀ {α : Type} {result : α → Prop} {value : α}, result value →
    holds result fun _ => pure value
  bind : ∀ {α β : Type} {between : α → Prop} {result : β → Prop} {action : ι → Exec S α}
    {next : ι → α → Exec S β}, holds between action →
      (∀ value, between value → holds result fun i => next i value) →
      holds result fun i => action i >>= next i
  fail : ∀ {α : Type} {result : α → Prop} {kind : ErrorKind} {span : Span}, places span →
    kind.isTooDeep = false → holds result fun _ => fail kind span
  tooLong : ∀ {α : Type} {result : α → Prop}, holds result fun _ => throw .tooLong
  elementary : ∀ {action : Exec S Unit}, Elementary action → holds (fun _ => True) fun _ => action
  store : holds (fun _ => True) fun _ => store
  capture : ∀ {α : Type} {result : α → Prop} {action : ι → Exec S α}, holds result action →
    holds (fun value => result value.1) fun i => capture (action i)
  affords_steady : ∀ count, affords (fun _ => count) count
  /-- A step is taken from the budgets. -/
  spend : ∀ {α : Type} {result : α → Prop} (action : ι → Nat → Exec S α) {budget : ι → Nat}
    {count : Nat}, (∀ i, action i 0 = throw .outOfFuel) → affords budget (count + 1) →
      (∀ left, affords left count → holds result fun i => action i (left i + 1)) →
      holds result fun i => action i (budget i)

namespace FamilyJudgement

open Exec

variable {S α β ι : Type} [Store S] {places : Span → Prop} (family : FamilyJudgement S places ι)

/-- The judgement on families whose members are all the same. -/
def steady : Judgement S places where
  holds result action := family.holds result fun _ => action
  pure := family.pure
  bind := family.bind
  fail := family.fail
  tooLong := family.tooLong
  elementary := family.elementary
  store := family.store
  capture := family.capture

theorem mono {result weaker : α → Prop} {action : ι → Exec S α}
    (haction : family.holds result action) (hweaker : ∀ value, result value → weaker value) :
    family.holds weaker action := by
  have hpure : action = fun i => action i >>= Pure.pure := by
    funext i
    rw [bind_pure]
  rw [hpure]
  exact family.bind haction fun value hvalue => family.pure (hweaker value hvalue)

/-- As `bind`, where nothing is known of the value. -/
theorem andThen {result : β → Prop} {action : ι → Exec S α} {next : ι → α → Exec S β}
    (haction : family.holds (fun _ => True) action)
    (hnext : ∀ value, family.holds result fun i => next i value) :
    family.holds result fun i => action i >>= next i :=
  family.bind haction fun value _ => hnext value

/-- The judgement holds of the runners of a family on less than `count` tokens, and they take the
token at the front. -/
def Covers (count : Nat) (run : ι → Runner S) : Prop :=
  ∀ token rest, (token :: rest).length < count → Placed places (token :: rest) →
    family.holds (· <:+ rest) fun i => run i (token :: rest)

/-- The judgement holds of all scripts that the runners of a family run. -/
def CoversScripts (run : ι → Runner S) : Prop :=
  ∀ script, family.holds (fun _ => True) fun i => nested (run i) script

variable {family} {run : ι → Runner S} {count : Nat} {budget : ι → Nat} {tokens : List Token}

theorem Covers.of_le {more : Nat} (hrun : family.Covers more run) (hle : count ≤ more) :
    family.Covers count run :=
  fun token rest hlength => hrun token rest (Nat.lt_of_lt_of_le hlength hle)

theorem sequence (hrun : family.Covers (count + 1) run) (hlength : tokens.length ≤ count)
    (hplaced : Placed places tokens) (hbudget : family.affords budget count) :
    family.holds (fun _ => True) fun i => sequence (run i) (budget i) tokens := by
  induction count generalizing tokens budget with
  | zero =>
      obtain rfl := List.eq_nil_of_length_eq_zero (Nat.le_zero.mp hlength)
      simp only [Exec.sequence]
      exact family.pure trivial
  | succ count ih =>
      cases tokens with
      | nil =>
          simp only [Exec.sequence]
          exact family.pure trivial
      | cons token rest =>
          refine family.spend (fun i left => Exec.sequence (run i) left (token :: rest))
            (fun _ => rfl) hbudget fun left hleft => ?_
          have hfirst := hrun token rest (Nat.lt_succ_of_le hlength) hplaced
          refine family.bind hfirst fun after hafter => ?_
          refine ih (hrun.of_le (Nat.le_succ _)) ?_ ?_ hleft
          · exact Nat.le_trans hafter.length_le (Nat.le_of_succ_le_succ hlength)
          · exact hplaced.suffix (hafter.trans (List.suffix_cons token rest))

theorem sequenceAll (hrun : family.Covers (tokens.length + 1) run)
    (hplaced : Placed places tokens) :
    family.holds (fun _ => True) fun i => sequenceAll (run i) tokens :=
  sequence hrun (Nat.le_refl _) hplaced (family.affords_steady _)

theorem argumentsFrom (hrun : family.Covers count run) {opener : Token}
    (hopener : places opener.span) (part : String) (begun : Bool) (hlength : tokens.length < count)
    (hplaced : Placed places tokens) (hbudget : family.affords budget count) :
    family.holds (fun value => value.2 <:+ tokens) fun i =>
      argumentsFrom (run i) opener (budget i) part begun tokens := by
  induction count generalizing part begun tokens budget with
  | zero => cases hlength
  | succ count ih =>
      refine family.spend (fun i left => Exec.argumentsFrom (run i) opener left part begun tokens)
        (fun _ => rfl) hbudget fun left hleft => ?_
      cases tokens with
      | nil =>
          simp only [Exec.argumentsFrom]
          exact family.fail hopener rfl
      | cons token rest =>
          have hrest := List.suffix_cons token rest
          -- What is left of the rest is also an end of the whole.
          have hmore (part : String) {after : List Token} (hafter : after <:+ rest) :
              family.holds (fun value => value.2 <:+ token :: rest) fun i =>
                Exec.argumentsFrom (run i) opener (left i) part true after := by
            have hshort := Nat.lt_of_le_of_lt hafter.length_le (Nat.lt_of_succ_lt_succ hlength)
            refine family.mono (ih (hrun.of_le (Nat.le_succ _)) part true hshort
              (hplaced.suffix (hafter.trans hrest)) hleft) fun value hvalue => ?_
            exact (hvalue.trans hafter).trans hrest
          have hcommand : family.holds (fun value => value.2 <:+ token :: rest) fun i =>
              Exec.capture (run i (token :: rest)) >>= fun value =>
                Exec.argumentsFrom (run i) opener (left i) (part ++ value.2) true value.1 :=
            family.bind (family.capture (hrun token rest hlength hplaced))
              fun value hvalue => hmore _ hvalue
          cases hrole : token.role with
          | comma =>
              simp only [Exec.argumentsFrom, hrole]
              exact family.bind (hmore "" List.suffix_rfl) fun value hvalue => family.pure hvalue
          | close =>
              simp only [Exec.argumentsFrom, hrole]
              exact family.pure hrest
          | literal value =>
              simp only [Exec.argumentsFrom, hrole]
              exact hmore _ List.suffix_rfl
          | stored =>
              simp only [Exec.argumentsFrom, hrole]
              exact hcommand
          | keyword keyword =>
              cases hcontrol : keyword.isControl with
              | true =>
                  simp only [Exec.argumentsFrom, hrole, hcontrol, if_true]
                  exact family.fail (hplaced token List.mem_cons_self) rfl
              | false =>
                  simp only [Exec.argumentsFrom, hrole, hcontrol, Bool.false_eq_true, if_false]
                  exact hcommand

/-- The arguments of a command, whose tokens after it are less than `count`. -/
theorem arguments (hrun : family.Covers count run) {command : Token} {rest : List Token}
    (hlength : rest.length < count) (hplaced : Placed places (command :: rest))
    (hbudget : family.affords budget count) :
    family.holds (fun value => value.2 <:+ rest) fun i =>
      arguments (budget i) (run i) command rest := by
  by_cases hcall : command.kind = .call
  · simp only [Exec.arguments, hcall, if_true]
    exact argumentsFrom hrun (hplaced command List.mem_cons_self) "" false hlength
      (hplaced.suffix (List.suffix_cons command rest)) hbudget
  · simp only [Exec.arguments, hcall, if_false]
    exact family.pure List.suffix_rfl

theorem conditionFrom (hrun : family.Covers count run) {ifSpan : Span} (hif : places ifSpan)
    (condition : PartialCondition) (hlength : tokens.length < count)
    (hplaced : Placed places tokens) (hbudget : family.affords budget count) :
    family.holds (fun value => value.2 <:+ tokens) fun i =>
      conditionFrom (run i) ifSpan (budget i) condition tokens := by
  induction count generalizing condition tokens budget with
  | zero => cases hlength
  | succ count ih =>
      refine family.spend (fun i left => Exec.conditionFrom (run i) ifSpan left condition tokens)
        (fun _ => rfl) hbudget fun left hleft => ?_
      cases tokens with
      | nil =>
          simp only [Exec.conditionFrom]
          exact family.fail hif rfl
      | cons token rest =>
          have hrest := List.suffix_cons token rest
          have htoken := hplaced token List.mem_cons_self
          have hmore (condition : PartialCondition) {after : List Token} (hafter : after <:+ rest) :
              family.holds (fun value => value.2 <:+ token :: rest) fun i =>
                Exec.conditionFrom (run i) ifSpan (left i) condition after := by
            have hshort := Nat.lt_of_le_of_lt hafter.length_le (Nat.lt_of_succ_lt_succ hlength)
            refine family.mono (ih (hrun.of_le (Nat.le_succ _)) condition hshort
              (hplaced.suffix (hafter.trans hrest)) hleft) fun value hvalue => ?_
            exact (hvalue.trans hafter).trans hrest
          have hpart : family.holds (fun value => value.1 <:+ rest) fun i =>
              conditionPart (run i) token rest := by
            cases hliteral : token.isLiteral with
            | true =>
                simp only [conditionPart, hliteral, if_true]
                exact family.pure List.suffix_rfl
            | false =>
                simp only [conditionPart, hliteral, Bool.false_eq_true, if_false]
                exact family.capture (hrun token rest hlength hplaced)
          cases hrole : conditionRole token with
          | refused =>
              simp only [Exec.conditionFrom, hrole]
              exact family.fail htoken rfl
          | ending =>
              simp only [Exec.conditionFrom, hrole]
              split
              · exact family.fail htoken rfl
              · exact family.pure hrest
          | negation =>
              simp only [Exec.conditionFrom, hrole]
              exact hmore _ List.suffix_rfl
          | connector conjunction =>
              cases hopen : condition.value.isNone || condition.isOpen with
              | true =>
                  simp only [Exec.conditionFrom, hrole, hopen, if_true]
                  exact family.fail htoken rfl
              | false =>
                  simp only [Exec.conditionFrom, hrole, hopen, Bool.false_eq_true, if_false]
                  exact hmore _ List.suffix_rfl
          | part =>
              cases hwants : condition.wantsPart with
              | true =>
                  simp only [Exec.conditionFrom, hrole, hwants, if_true]
                  refine family.bind hpart fun value hvalue => ?_
                  refine family.andThen (family.steady.ofValue htoken _) fun truth => ?_
                  exact hmore _ hvalue
              | false =>
                  simp only [Exec.conditionFrom, hrole, hwants, Bool.false_eq_true, if_false]
                  exact family.fail htoken rfl

theorem chooseBranchWithin (hrun : family.Covers count run) {ifSpan : Span} (hif : places ifSpan)
    (hlength : tokens.length < count) (hplaced : Placed places tokens)
    (hbudget : family.affords budget count) {chances : ι → Nat} {most : Nat}
    (hmost : tokens.length < most) (hchances : family.affords chances most) :
    family.holds (· <:+ tokens) fun i =>
      chooseBranchWithin (budget i) (run i) ifSpan (chances i) tokens := by
  induction most generalizing tokens chances with
  | zero => cases hmost
  | succ most ih =>
      refine family.spend
        (fun i left => Exec.chooseBranchWithin (budget i) (run i) ifSpan left tokens)
        (fun _ => rfl) hchances fun left hleft => ?_
      simp only [Exec.chooseBranchWithin]
      refine family.bind (conditionFrom hrun hif {} hlength hplaced hbudget) ?_
      rintro ⟨holds, body⟩ hbody
      cases holds with
      | true => exact family.pure hbody
      | false =>
          simp only [Bool.false_eq_true, if_false]
          cases hfound : Nesting.branchEnd? 0 body with
          | none => exact family.fail hif rfl
          | some found =>
              obtain ⟨ending, after⟩ := found
              obtain ⟨last, hlast⟩ := Nesting.branchEnd?_suffix hfound
              have hshort : after.length < tokens.length := (hlast.trans hbody).length_le
              have hafter := (List.suffix_cons last after).trans (hlast.trans hbody)
              cases ending with
              | elseWord => exact family.pure hafter
              | endIf => exact family.pure hafter
              | elseIf =>
                  refine family.mono (ih (Nat.lt_trans hshort hlength) (hplaced.suffix hafter) ?_
                    hleft) fun value hvalue => hvalue.trans hafter
                  exact Nat.lt_of_lt_of_le hshort (Nat.le_of_lt_succ hmost)

theorem forEach (name : String) {body : List Token} (hrun : family.Covers (body.length + 1) run)
    (hplaced : Placed places body) (values : List String) :
    family.holds (fun _ => True) fun i => forEach (run i) name body values := by
  induction values with
  | nil =>
      simp only [Exec.forEach]
      exact family.pure trivial
  | cons value rest ih =>
      simp only [Exec.forEach]
      refine family.andThen (sequenceAll ?_ (hplaced.substitute name value)) fun _ => ih
      rw [substitute, List.length_map]
      exact hrun

variable {rest : List Token}

theorem loop (hrun : family.Covers count run) (loops : LoopFamily) {header : Token}
    (hlength : rest.length < count) (hplaced : Placed places (header :: rest))
    (hbudget : family.affords budget count) :
    family.holds (· <:+ rest) fun i => loop (budget i) (run i) loops header rest := by
  have hheader := hplaced header List.mem_cons_self
  refine family.bind (arguments hrun hlength hplaced hbudget) fun value hvalue => ?_
  refine family.bind (family.steady.checkArity hheader _ _) fun _ haccepts => ?_
  cases hfound : Nesting.loopBody? loops value.2 with
  | none => exact family.fail hheader rfl
  | some parts =>
      obtain ⟨body, after⟩ := parts
      obtain ⟨last, htokens⟩ := Nesting.eq_append_of_loopBody? hfound
      have hbody : Placed places body := by
        intro token hmem
        have htoken : token ∈ value.2 := htokens ▸ List.mem_append_left _ hmem
        exact hplaced token (List.mem_cons_of_mem header (hvalue.mem htoken))
      have hafter : after <:+ value.2 := ⟨body ++ [last], by simpa using htokens.symm⟩
      have hshort : body.length < count :=
        calc body.length
          _ < value.2.length := Nesting.length_lt_of_loopBody? hfound
          _ ≤ rest.length := hvalue.length_le
          _ < count := hlength
      simp only [iterate_eq]
      refine family.andThen (family.andThen (family.steady.loopValues hheader haccepts) ?_)
        fun _ => family.pure (hafter.trans hvalue)
      exact fun found => forEach found.1 (hrun.of_le hshort) hbody found.2

theorem builtin (hscripts : family.CoversScripts run) {keyword : Keyword}
    (hcontrol : keyword.isControl = false) {span : Span} (hspan : places span)
    {values : List String} (haccepts : keyword.arity.accepts values.length = true) :
    family.holds (fun _ => True) fun i => builtin (run i) keyword span values := by
  cases hkeyword : keyword.runsScript with
  | false =>
      have hprimitive := family.steady.primitive hspan hcontrol hkeyword haccepts
      cases keyword <;> first | exact hprimitive | cases hkeyword
  | true =>
      cases keyword with
      | exec =>
          obtain ⟨script, rfl⟩ := Arity.one_argument haccepts
          exact hscripts script
      | script =>
          obtain ⟨key, rfl⟩ := Arity.one_argument haccepts
          exact family.andThen family.store fun current => hscripts _
      | getValue =>
          obtain ⟨key, rfl⟩ := Arity.one_argument haccepts
          refine family.andThen family.store fun current => ?_
          cases hscript : Value.isScript (Store.get current key) with
          | true =>
              simp only [hscript, if_true]
              exact hscripts _
          | false =>
              simp only [hscript, Bool.false_eq_true, if_false]
              exact family.steady.write _
      | _ => cases hkeyword

theorem builtinCall (hrun : family.Covers count run) (hscripts : family.CoversScripts run)
    {keyword : Keyword} (hcontrol : keyword.isControl = false) {command : Token}
    (hlength : rest.length < count) (hplaced : Placed places (command :: rest))
    (hbudget : family.affords budget count) :
    family.holds (· <:+ rest) fun i => builtinCall (budget i) (run i) keyword command rest := by
  have hcommand := hplaced command List.mem_cons_self
  refine family.bind (arguments hrun hlength hplaced hbudget) fun value hvalue => ?_
  refine family.bind (family.steady.checkArity hcommand _ _) fun _ haccepts => ?_
  exact family.andThen (builtin hscripts hcontrol hcommand haccepts) fun _ => family.pure hvalue

theorem storedCall (hrun : family.Covers count run) (hscripts : family.CoversScripts run)
    {command : Token} (hlength : rest.length < count) (hplaced : Placed places (command :: rest))
    (hbudget : family.affords budget count) :
    family.holds (· <:+ rest) fun i => storedCall (budget i) (run i) command rest := by
  have hcommand := hplaced command List.mem_cons_self
  refine family.andThen family.store fun current => ?_
  by_cases hcall : command.kind = .call
  · simp only [hcall, if_true]
    cases hentries : Store.entriesFrom current command.text with
    | nil => exact family.fail hcommand rfl
    | cons entry others =>
        refine family.bind (arguments hrun hlength hplaced hbudget) fun value hvalue => ?_
        refine family.bind (family.steady.checkArity hcommand _ _) fun _ _ => ?_
        exact family.andThen (hscripts _) fun _ => family.pure hvalue
  · simp only [hcall, if_false]
    cases hempty : (Store.get current command.text).isEmpty with
    | true =>
        simp only [if_true]
        exact family.fail hcommand rfl
    | false =>
        simp only [Bool.false_eq_true, if_false]
        exact family.andThen (hscripts _) fun _ => family.pure List.suffix_rfl

/-- A command inherits the judgement from the shorter commands and the scripts it contains. -/
theorem commandWith (hscripts : family.CoversScripts run) {token : Token}
    (hrun : family.Covers (rest.length + 1) run) (hplaced : Placed places (token :: rest))
    (hbudget : family.affords budget (rest.length + 1)) :
    family.holds (· <:+ rest) fun i => commandWith (budget i) (run i) (token :: rest) := by
  have hlength := Nat.lt_succ_self rest.length
  have htoken := hplaced token List.mem_cons_self
  have hrest := hplaced.suffix (List.suffix_cons token rest)
  cases hrole : token.role with
  | keyword keyword =>
      cases hcontrol : keyword.isControl with
      | false =>
          simp only [commandWith_ordinary _ _ hrole hcontrol]
          exact builtinCall hrun hscripts hcontrol hlength hplaced hbudget
      | true =>
          cases keyword with
          | branch part =>
              cases part with
              | ifWord =>
                  simp only [Exec.commandWith, hrole]
                  exact chooseBranchWithin hrun htoken hlength hrest hbudget hlength hbudget
              | thenWord =>
                  simp only [Exec.commandWith, hrole]
                  exact family.fail htoken rfl
              | endIf =>
                  simp only [Exec.commandWith, hrole]
                  exact family.pure List.suffix_rfl
              | elseIf | elseWord =>
                  simp only [Exec.commandWith, hrole]
                  split
                  next hfound => exact family.pure (Nesting.afterEndIf?_suffix hfound)
                  next => exact family.fail htoken rfl
          | connector word =>
              simp only [Exec.commandWith, hrole]
              exact family.fail htoken rfl
          | loop loops =>
              simp only [Exec.commandWith, hrole]
              exact loop hrun loops hlength hplaced hbudget
          | endLoop loops =>
              simp only [Exec.commandWith, hrole]
              exact family.fail htoken rfl
          | _ => cases hcontrol
  | comma =>
      simp only [Exec.commandWith, hrole]
      exact family.fail htoken rfl
  | close =>
      simp only [Exec.commandWith, hrole]
      exact family.fail htoken rfl
  | literal value =>
      simp only [Exec.commandWith, hrole]
      exact family.andThen (family.steady.write value) fun _ => family.pure List.suffix_rfl
  | stored =>
      simp only [Exec.commandWith, hrole]
      exact storedCall hrun hscripts hlength hplaced hbudget

end FamilyJudgement

/-! ## Single computations -/

namespace Judgement

open Exec

variable {S : Type} [Store S] {places : Span → Prop} (judgement : Judgement S places)

/-- The judgement holds where a computation runs out of steps. -/
def CoversFuel : Prop :=
  ∀ {α : Type} (result : α → Prop), judgement.holds result (throw .outOfFuel : Exec S α)

/-- The judgement holds of a runner, which moreover takes the token at the front. -/
def Covers (run : Runner S) : Prop :=
  ∀ token rest, Placed places (token :: rest) →
    judgement.holds (· <:+ rest) (run (token :: rest))

/-- A judgement that also holds where steps run out, on families of one member. -/
def single (hfuel : judgement.CoversFuel) : FamilyJudgement S places Unit where
  holds result action := judgement.holds result (action ())
  affords _ _ := True
  pure := judgement.pure
  bind := judgement.bind
  fail := judgement.fail
  tooLong := judgement.tooLong
  elementary := judgement.elementary
  store := judgement.store
  capture := judgement.capture
  affords_steady _ := trivial
  spend action budget count hzero _ hnext := by
    dsimp only
    cases budget () with
    | zero =>
        rw [hzero]
        exact hfuel _
    | succ left => exact hnext (fun _ => left) trivial

end Judgement

/-- The places of the tokens of a script. -/
def Token.IsPlace (script : String) (span : Span) : Prop :=
  ∃ token ∈ Token.scan script, token.span = span

theorem Token.placed_scan (script : String) : Placed (IsPlace script) (scan script) :=
  fun token hmem => ⟨token, hmem, rfl⟩

section

variable {S : Type} [Store S] (judgement : (places : Span → Prop) → Judgement S places)
  (hfuel : ∀ places, (judgement places).CoversFuel)
  (hnested : ∀ places (run : Runner S) script,
    (judgement (Token.IsPlace script)).holds (fun _ => True)
      (Exec.sequenceAll run (Token.scan script)) →
    (judgement places).holds (fun _ => True) (Exec.nested run script))

include hfuel

/-- A judgement on commands is one on the tokens of a script. -/
theorem Judgement.sequenceAll_scan {run : Runner S} {script : String}
    (hrun : (judgement (Token.IsPlace script)).Covers run) :
    (judgement (Token.IsPlace script)).holds (fun _ => True)
      (Exec.sequenceAll run (Token.scan script)) := by
  have hcovers : ((judgement _).single (hfuel _)).Covers ((Token.scan script).length + 1)
      fun _ => run := fun token rest _ hplaced => hrun token rest hplaced
  exact FamilyJudgement.sequenceAll hcovers (Token.placed_scan script)

include hnested

/-- Judgements that are handed on from the tokens of a script to the script, wherever it is run,
hold of every command. -/
theorem Judgement.command (fuel : Nat) (places : Span → Prop) :
    (judgement places).Covers (Exec.command fuel) := by
  induction fuel generalizing places with
  | zero => exact fun _ _ _ => hfuel places _
  | succ fuel ih =>
      intro token rest hplaced
      have hscripts : ((judgement places).single (hfuel places)).CoversScripts
          fun _ => Exec.command fuel :=
        fun script => hnested places _ script (sequenceAll_scan judgement hfuel (ih _))
      have hrun : ((judgement places).single (hfuel places)).Covers (rest.length + 1)
          fun _ => Exec.command fuel := fun token rest _ hplaced => ih places token rest hplaced
      have hcommand : ((judgement places).single (hfuel places)).holds (· <:+ rest)
          fun _ => Exec.commandWith fuel (Exec.command fuel) (token :: rest) :=
        FamilyJudgement.commandWith hscripts hrun hplaced trivial
      exact hcommand

/-- Such judgements hold of the tokens of every script. -/
theorem Judgement.scanned (fuel : Nat) (script : String) :
    (judgement (Token.IsPlace script)).holds (fun _ => True)
      (Exec.sequenceAll (Exec.command fuel) (Token.scan script)) :=
  sequenceAll_scan judgement hfuel (command judgement hfuel hnested fuel _)

end

end AtScript
