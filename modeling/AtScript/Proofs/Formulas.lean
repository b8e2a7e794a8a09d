import AtScript.Proofs.Evaluation

/-! # What conditions are and what they are worth

A condition is a formula: atoms that AND and OR join and NOT negates, with pairs of NOTs wherever a
connector or the end may follow. Reading a condition accepts exactly the formulas that THEN ends
and whose atoms evaluate to truth values. Every atom is evaluated, and the truth values are joined
from left to right.
-/

namespace AtScript

/-! ## Formulas -/

namespace Formula

/-- A run of NOTs. -/
structure Negations where
  tokens : List Token
  isNot : ∀ token ∈ tokens, Keyword.ofToken? token = some (.connector .not)

/-- Whether NOTs negate what follows them. -/
def Negations.odd (negations : Negations) : Bool :=
  negations.tokens.length % 2 == 1

/-- An atom after any number of NOTs. -/
structure Operand where
  negations : Negations
  atom : List Token
  isAtom : Grammar.Atom atom

def Operand.tokens (operand : Operand) : List Token :=
  operand.negations.tokens ++ operand.atom

/-- The truth value of an operand whose atom has some truth value. -/
def Operand.value (operand : Operand) (truth : Bool) : Bool :=
  truth != operand.negations.odd

/-- A connector and its right side, after an even number of NOTs. -/
structure Link where
  spare : Negations
  even : spare.odd = false
  connector : Token
  conjunction : Bool
  isConnector : Keyword.ofToken? connector =
    some (.connector (if conjunction then .and else .or))
  operand : Operand

def Link.tokens (link : Link) : List Token :=
  link.spare.tokens ++ link.connector :: link.operand.tokens

/-- Joins what stands before a link with the link, whose atom has some truth value. -/
def Link.join (before : Bool) (link : Link × Bool) : Bool :=
  if link.1.conjunction then before && link.1.operand.value link.2
  else before || link.1.operand.value link.2

/-- A partial condition that waits for the operand of a link joins it as the link says. -/
theorem Link.condition_join (link : Link) (before truth : Bool) :
    Exec.PartialCondition.join ⟨some before, some link.conjunction, link.operand.negations.odd⟩
      truth = { value := some (Link.join before (link, truth)) } := by
  cases hconjunction : link.conjunction <;>
    simp [Exec.PartialCondition.join, Link.join, Operand.value, hconjunction]

/-- Operands that are joined. -/
structure Terms where
  first : Operand
  links : List Link

namespace Terms

def tokens (terms : Terms) : List Token :=
  terms.first.tokens ++ terms.links.flatMap Link.tokens

def atoms (terms : Terms) : List (List Token) :=
  terms.first.atom :: terms.links.map (·.operand.atom)

/-- The truth value of terms whose atoms have some truth values. Terms are joined from left to right
without precedence. -/
def value (terms : Terms) : List Bool → Bool
  | [] => false
  | truth :: truths => (terms.links.zip truths).foldl Link.join (terms.first.value truth)

end Terms

end Formula

/-- A whole condition: terms, or no atom at all, and then an even number of NOTs. -/
structure Formula where
  terms : Option Formula.Terms
  spare : Formula.Negations
  even : spare.odd = false

namespace Formula

def tokens (formula : Formula) : List Token :=
  match formula.terms with
  | some terms => terms.tokens ++ formula.spare.tokens
  | none => formula.spare.tokens

def atoms (formula : Formula) : List (List Token) :=
  match formula.terms with
  | some terms => terms.atoms
  | none => []

/-- The truth value of a formula whose atoms have some truth values. -/
def value (formula : Formula) (truths : List Bool) : Bool :=
  match formula.terms with
  | some terms => terms.value truths
  | none => false

namespace Negations

def none : Negations := ⟨[], nofun⟩

/-- One more NOT. -/
def snoc (negations : Negations) (token : Token)
    (htoken : Keyword.ofToken? token = some (.connector .not)) : Negations where
  tokens := negations.tokens ++ [token]
  isNot := by
    rw [List.forall_mem_append, List.forall_mem_singleton]
    exact ⟨negations.isNot, htoken⟩

@[simp] theorem tokens_none : none.tokens = [] := rfl

@[simp] theorem odd_none : none.odd = false := rfl

@[simp] theorem tokens_snoc (negations : Negations) (token : Token)
    (htoken : Keyword.ofToken? token = some (.connector .not)) :
    (negations.snoc token htoken).tokens = negations.tokens ++ [token] := rfl

theorem odd_cons {token : Token} {tokens : List Token}
    (hnot : ∀ other ∈ token :: tokens, Keyword.ofToken? other = some (.connector .not)) :
    odd ⟨token :: tokens, hnot⟩ = !odd ⟨tokens, (List.forall_mem_cons.mp hnot).2⟩ := by
  rcases Nat.mod_two_eq_zero_or_one tokens.length with hmod | hmod <;>
    simp [odd, Nat.add_mod, hmod]

@[simp] theorem odd_snoc (negations : Negations) {token : Token}
    (htoken : Keyword.ofToken? token = some (.connector .not)) :
    (negations.snoc token htoken).odd = !negations.odd := by
  rcases Nat.mod_two_eq_zero_or_one negations.tokens.length with hmod | hmod <;>
    simp [odd, snoc, Nat.add_mod, hmod]

end Negations

namespace Terms

/-- One more link. -/
def snoc (terms : Terms) (link : Link) : Terms :=
  ⟨terms.first, terms.links ++ [link]⟩

variable (terms : Terms) (link : Link)

theorem tokens_snoc : (terms.snoc link).tokens = terms.tokens ++ link.tokens := by
  simp [tokens, snoc]

theorem atoms_snoc : (terms.snoc link).atoms = terms.atoms ++ [link.operand.atom] := by
  simp [atoms, snoc]

theorem value_snoc {truths : List Bool} (hlength : truths.length = terms.atoms.length)
    (truth : Bool) :
    (terms.snoc link).value (truths ++ [truth]) = Link.join (terms.value truths) (link, truth) := by
  cases truths with
  | nil => cases hlength
  | cons first truths =>
      have hlinks : terms.links.length = truths.length := by
        simpa [atoms] using hlength.symm
      rw [List.cons_append, value, value, snoc, List.zip_append hlinks, List.foldl_append]
      rfl

end Terms

theorem inert_of_connector {token : Token} {word : Connector}
    (htoken : Keyword.ofToken? token = some (.connector word)) : token.Inert := by
  intro keyword hkeyword
  cases htoken.symm.trans hkeyword
  rfl

theorem Negations.inert (negations : Negations) : ∀ token ∈ negations.tokens, token.Inert :=
  fun token htoken => inert_of_connector (negations.isNot token htoken)

theorem Operand.inert (operand : Operand) : ∀ token ∈ operand.tokens, token.Inert :=
  List.forall_mem_append.mpr ⟨operand.negations.inert, operand.isAtom.arguments.inert⟩

theorem Link.inert (link : Link) : ∀ token ∈ link.tokens, token.Inert :=
  List.forall_mem_append.mpr ⟨link.spare.inert,
    List.forall_mem_cons.mpr ⟨inert_of_connector link.isConnector, link.operand.inert⟩⟩

theorem Terms.inert (terms : Terms) : ∀ token ∈ terms.tokens, token.Inert := by
  refine List.forall_mem_append.mpr ⟨terms.first.inert, ?_⟩
  intro token htoken
  obtain ⟨link, -, hlink⟩ := List.mem_flatMap.mp htoken
  exact link.inert token hlink

/-! ## Formulas that have been read in part -/

/-- The beginning of a formula, up to where an atom, a connector or the end may follow. -/
inductive Stage where
  | start (negations : Negations)
  | joined (terms : Terms) (negations : Negations)
  /-- A connector waits for its right side. -/
  | waiting (terms : Terms) (spare : Negations) (even : spare.odd = false) (connector : Token)
    (conjunction : Bool)
    (isConnector : Keyword.ofToken? connector =
      some (.connector (if conjunction then .and else .or)))
    (negations : Negations)

namespace Stage

def tokens : Stage → List Token
  | start negations => negations.tokens
  | joined terms negations => terms.tokens ++ negations.tokens
  | waiting terms spare _ connector _ _ negations =>
    terms.tokens ++ (spare.tokens ++ connector :: negations.tokens)

def atoms : Stage → List (List Token)
  | start _ => []
  | joined terms _ | waiting terms .. => terms.atoms

/-- What an evaluation keeps of a beginning whose atoms have some truth values. -/
def condition (truths : List Bool) : Stage → Exec.PartialCondition
  | start negations => { negated := negations.odd }
  | joined terms negations => { value := some (terms.value truths), negated := negations.odd }
  | waiting terms _ _ _ conjunction _ negations =>
    { value := some (terms.value truths), pending := some conjunction, negated := negations.odd }

/-- No token of a beginning belongs to a branch or a loop. -/
theorem inert (stage : Stage) : ∀ token ∈ stage.tokens, token.Inert := by
  cases stage with
  | start negations => exact negations.inert
  | joined terms negations =>
      exact List.forall_mem_append.mpr ⟨terms.inert, negations.inert⟩
  | waiting terms spare _ connector _ hconnector negations =>
      refine List.forall_mem_append.mpr ⟨terms.inert, List.forall_mem_append.mpr ⟨spare.inert, ?_⟩⟩
      exact List.forall_mem_cons.mpr ⟨inert_of_connector hconnector, negations.inert⟩

theorem branch?_eq_none (stage : Stage) : ∀ token ∈ stage.tokens, token.branch? = none :=
  fun token htoken => (stage.inert token htoken).branch?

end Stage

end Formula

namespace Exec

open Formula

variable {S : Type} [Store S]

/-! ## Evaluating atoms -/

/-- Evaluating a literal or a command, all of whose tokens are `atom`, gives a text. -/
inductive AtomGives : Engine S → List Token → String → Engine S → Prop
  | literal {engine : Engine S} {token : Token} (htoken : token.isLiteral = true) :
      AtomGives engine [token] token.literalValue engine
  | command {engine after : Engine S} {fuel : Nat} {token : Token} {more : List Token}
      {text : String} (htoken : token.Ordinary)
      (hcommand : command fuel (token :: more) ⟨engine, ""⟩ = .ok [] ⟨after, text⟩) :
      AtomGives engine (token :: more) text after

/-- Evaluating atoms one after the other gives truth values. -/
inductive AtomsGive : Engine S → List (List Token) → List Bool → Engine S → Prop
  | nil {engine : Engine S} : AtomsGive engine [] [] engine
  | cons {engine middle after : Engine S} {atom : List Token} {text : String} {truth : Bool}
      {atoms : List (List Token)} {truths : List Bool} (hatom : AtomGives engine atom text middle)
      (htruth : Value.toBool text = .ok truth) (hrest : AtomsGive middle atoms truths after) :
      AtomsGive engine (atom :: atoms) (truth :: truths) after

namespace AtomsGive

variable {engine middle after : Engine S} {atoms : List (List Token)} {truths : List Bool}

theorem length_eq (hatoms : AtomsGive engine atoms truths after) :
    truths.length = atoms.length := by
  induction hatoms with
  | nil => rfl
  | cons _ _ _ ih => rw [List.length_cons, List.length_cons, ih]

theorem snoc (hatoms : AtomsGive engine atoms truths middle) {atom : List Token} {text : String}
    {truth : Bool} (hatom : AtomGives middle atom text after)
    (htruth : Value.toBool text = .ok truth) :
    AtomsGive engine (atoms ++ [atom]) (truths ++ [truth]) after := by
  induction hatoms with
  | nil => exact .cons hatom htruth .nil
  | cons hfirst hvalue _ ih => exact .cons hfirst hvalue (ih hatom)

end AtomsGive

/-- The tokens that have been read are the beginning of a formula whose atoms have been evaluated,
and `condition` is what an evaluation keeps of them. -/
def Reached (engine : Engine S) (read : List Token) (condition : PartialCondition)
    (after : Engine S) : Prop :=
  ∃ (stage : Formula.Stage) (truths : List Bool), stage.tokens = read ∧
    stage.condition truths = condition ∧ AtomsGive engine stage.atoms truths after

namespace Reached

variable {engine after : Engine S} {read : List Token} {condition : PartialCondition}
  {token : Token}

theorem start : Reached engine [] {} engine :=
  ⟨.start .none, [], rfl, rfl, .nil⟩

theorem negation (hreached : Reached engine read condition after)
    (htoken : Keyword.ofToken? token = some (.connector .not)) :
    Reached engine (read ++ [token]) { condition with negated := !condition.negated } after := by
  obtain ⟨stage, truths, rfl, rfl, hatoms⟩ := hreached
  cases stage with
  | start negations =>
      refine ⟨.start (negations.snoc token htoken), truths, rfl, ?_, hatoms⟩
      simp [Stage.condition]
  | joined terms negations =>
      refine ⟨.joined terms (negations.snoc token htoken), truths, ?_, ?_, hatoms⟩
      · simp [Stage.tokens]
      · simp [Stage.condition]
  | waiting terms spare heven connector conjunction hconnector negations =>
      refine ⟨.waiting terms spare heven connector conjunction hconnector
        (negations.snoc token htoken), truths, ?_, ?_, hatoms⟩
      · simp [Stage.tokens]
      · simp [Stage.condition]

theorem connector (hreached : Reached engine read condition after) {conjunction : Bool}
    (htoken : Keyword.ofToken? token = some (.connector (if conjunction then .and else .or)))
    (hvalue : condition.value.isNone = false) (hclosed : condition.isOpen = false) :
    Reached engine (read ++ [token]) { condition with pending := some conjunction } after := by
  obtain ⟨stage, truths, rfl, rfl, hatoms⟩ := hreached
  cases stage with
  | start negations => cases hvalue
  | joined terms negations =>
      have heven : negations.odd = false := hclosed
      refine ⟨.waiting terms negations heven token conjunction htoken .none, truths, ?_, ?_, hatoms⟩
      · simp [Stage.tokens]
      · simp [Stage.condition, heven]
  | waiting => cases hclosed

theorem part (hreached : Reached engine read condition after)
    (hwants : condition.wantsPart = true) {atom : List Token} {text : String} {truth : Bool}
    {final : Engine S} (hatom : Grammar.Atom atom) (hgives : AtomGives after atom text final)
    (htruth : Value.toBool text = .ok truth) :
    Reached engine (read ++ atom) (condition.join truth) final := by
  obtain ⟨stage, truths, rfl, rfl, hatoms⟩ := hreached
  cases stage with
  | start negations =>
      cases hatoms
      refine ⟨.joined ⟨⟨negations, atom, hatom⟩, []⟩ .none, [truth], ?_, rfl, ?_⟩
      · simp [Stage.tokens, Terms.tokens, Operand.tokens]
      · exact .cons hgives htruth .nil
  | joined => cases hwants
  | waiting terms spare heven connector conjunction hconnector negations =>
      let link : Link :=
        ⟨spare, heven, connector, conjunction, hconnector, ⟨negations, atom, hatom⟩⟩
      refine ⟨.joined (terms.snoc link) .none, truths ++ [truth], ?_, ?_, ?_⟩
      · simp [Stage.tokens, Terms.tokens_snoc, Link.tokens, Operand.tokens, link]
      · rw [Stage.condition, terms.value_snoc link hatoms.length_eq truth]
        exact (link.condition_join (terms.value truths) truth).symm
      · rw [Stage.atoms, terms.atoms_snoc]
        exact hatoms.snoc hgives htruth

/-- Where nothing has to follow, a whole formula has been read. -/
theorem formula (hreached : Reached engine read condition after)
    (hclosed : condition.isOpen = false) :
    ∃ (formula : Formula) (truths : List Bool), formula.tokens = read ∧
      AtomsGive engine formula.atoms truths after ∧
      condition.value.getD false = formula.value truths := by
  obtain ⟨stage, truths, rfl, rfl, hatoms⟩ := hreached
  cases stage with
  | start negations => exact ⟨⟨none, negations, hclosed⟩, truths, rfl, hatoms, rfl⟩
  | joined terms negations => exact ⟨⟨some terms, negations, hclosed⟩, truths, rfl, hatoms, rfl⟩
  | waiting => cases hclosed

end Reached

/-! ## How conditions end -/

omit [Store S] in
theorem conditionRole_eq_negation_iff {token : Token} :
    conditionRole token = .negation ↔ Keyword.ofToken? token = some (.connector .not) := by
  rw [← Token.role_eq_keyword_iff, conditionRole]
  cases token.role with
  | keyword keyword =>
      cases keyword with
      | branch part => cases part <;> simp [Keyword.isControl, Keyword.isStructural]
      | connector word => cases word <;> simp
      | _ => simp [Keyword.isControl, Keyword.isStructural]
  | _ => simp

omit [Store S] in
theorem conditionRole_eq_connector_iff {token : Token} {conjunction : Bool} :
    conditionRole token = .connector conjunction ↔
      Keyword.ofToken? token = some (.connector (if conjunction then .and else .or)) := by
  rw [← Token.role_eq_keyword_iff, conditionRole]
  cases token.role with
  | keyword keyword =>
      cases keyword with
      | branch part => cases part <;> simp [Keyword.isControl, Keyword.isStructural]
      | connector word => cases word <;> cases conjunction <;> simp
      | _ => simp [Keyword.isControl, Keyword.isStructural]
  | _ => simp

/-- The ways in which the evaluation of a condition can end, from an engine and on some tokens. -/
inductive ConditionEnds (fuel : Nat) (ifSpan : Span) (engine : Engine S) (out : String)
    (tokens : List Token) : EStateM.Result (Stop RunError) (Frame S) (Bool × List Token) → Prop
  | accepted {formula : Formula} {thenToken : Token} {rest : List Token} {truths : List Bool}
      {after : Engine S} (htokens : tokens = formula.tokens ++ thenToken :: rest)
      (hthen : thenToken.branch? = some .thenWord)
      (hatoms : AtomsGive engine formula.atoms truths after) :
      ConditionEnds fuel ifSpan engine out tokens
        (.ok (formula.value truths, rest) ⟨after, out⟩)
  /-- A token cannot follow what has been read. -/
  | misplaced {read rest : List Token} {token : Token} {condition : PartialCondition}
      {after : Engine S} (htokens : tokens = read ++ token :: rest)
      (hreached : Reached engine read condition after) :
      ConditionEnds fuel ifSpan engine out tokens
        (.error (.failed (.atSpan (.unexpectedToken token.text) token.span)) ⟨after, out⟩)
  /-- The tokens end before a THEN. -/
  | unended {condition : PartialCondition} {after : Engine S}
      (hreached : Reached engine tokens condition after) :
      ConditionEnds fuel ifSpan engine out tokens
        (.error (.failed (.atSpan (.imbalance .missingThen) ifSpan)) ⟨after, out⟩)
  /-- A command stops. -/
  | stopped {read rest : List Token} {token : Token} {condition : PartialCondition}
      {middle after : Engine S} {stop : Stop RunError} {written : String}
      (htokens : tokens = read ++ token :: rest) (hreached : Reached engine read condition middle)
      (htoken : token.Ordinary)
      (hcommand : command fuel (token :: rest) ⟨middle, ""⟩ = .error stop ⟨after, written⟩) :
      ConditionEnds fuel ifSpan engine out tokens (.error stop ⟨after, out⟩)
  /-- The text of an atom is no truth value. -/
  | unreadable {read more rest : List Token} {token : Token} {condition : PartialCondition}
      {middle after : Engine S} {text : String} {error : ValueError}
      (htokens : tokens = read ++ (token :: more) ++ rest)
      (hreached : Reached engine read condition middle)
      (hatom : AtomGives middle (token :: more) text after)
      (herror : Value.toBool text = .error error) :
      ConditionEnds fuel ifSpan engine out tokens
        (.error (.failed (.atSpan (.value error) token.span)) ⟨after, out⟩)
  | outOfFuel {after : Frame S} :
      ConditionEnds fuel ifSpan engine out tokens (.error .outOfFuel after)

/-- A part of a condition is a whole atom, or the command that it starts with stops. -/
theorem conditionPart_cases {fuel : Nat} {token : Token} (hrole : conditionRole token = .part)
    (rest : List Token) (engine : Engine S) (out : String) :
    (∃ more left text after, rest = more ++ left ∧ Grammar.Atom (token :: more) ∧
      AtomGives engine (token :: more) text after ∧
      conditionPart (command fuel) token rest ⟨engine, out⟩ = .ok (left, text) ⟨after, out⟩) ∨
    ∃ stop after written, token.Ordinary ∧
      command fuel (token :: rest) ⟨engine, ""⟩ = .error stop ⟨after, written⟩ ∧
      conditionPart (command fuel) token rest ⟨engine, out⟩ = .error stop ⟨after, out⟩ := by
  rw [conditionPart]
  by_cases hliteral : token.isLiteral = true
  · rw [if_pos hliteral]
    exact .inl ⟨[], rest, _, engine, rfl, .literal hliteral, .literal hliteral, rfl⟩
  · rw [if_neg hliteral]
    have htoken := (ordinary_of_conditionRole hrole).resolve_left hliteral
    cases hcommand : command fuel (token :: rest) ⟨engine, ""⟩ with
    | ok left after =>
        obtain ⟨after, text⟩ := after
        obtain ⟨more, rfl, hruns⟩ := command_runsPieces fuel htoken hcommand
        have halone := hruns.takes []
        rw [List.append_nil] at halone
        refine .inl ⟨more, left, text, after, rfl, hruns.atom, .command htoken halone, ?_⟩
        exact capture_eq_ok_iff.mpr ⟨after, hcommand, rfl⟩
    | error stop after =>
        refine .inr ⟨stop, after.engine, after.out, htoken, rfl, ?_⟩
        simp only [capture, hcommand]

/-- A condition whose beginning has been read ends in one of these ways. -/
theorem conditionFrom_ends {fuel budget : Nat} {ifSpan : Span} {start engine : Engine S}
    {out : String} {tokens read left : List Token} {condition : PartialCondition}
    (htokens : tokens = read ++ left) (hreached : Reached start read condition engine) :
    ConditionEnds fuel ifSpan start out tokens
      (conditionFrom (command fuel) ifSpan budget condition left ⟨engine, out⟩) := by
  induction budget generalizing engine read left condition with
  | zero => exact .outOfFuel
  | succ budget ih =>
      cases left with
      | nil =>
          rw [List.append_nil] at htokens
          subst htokens
          exact .unended hreached
      | cons token rest =>
          have hmisplaced : ConditionEnds fuel ifSpan start out tokens
              (.error (.failed (.atSpan (.unexpectedToken token.text) token.span))
                ⟨engine, out⟩) := .misplaced htokens hreached
          have htaken : tokens = (read ++ [token]) ++ rest := by simp [htokens]
          cases hrole : conditionRole token with
          | refused =>
              simp only [conditionFrom, hrole]
              exact hmisplaced
          | ending =>
              simp only [conditionFrom, hrole]
              split
              next => exact hmisplaced
              next hclosed =>
                obtain ⟨formula, truths, rfl, hatoms, hvalue⟩ :=
                  hreached.formula (Bool.not_eq_true _ ▸ hclosed)
                rw [hvalue]
                exact .accepted htokens ((conditionRole_eq_ending_iff token).mp hrole) hatoms
          | negation =>
              simp only [conditionFrom, hrole]
              exact ih htaken (hreached.negation (conditionRole_eq_negation_iff.mp hrole))
          | connector conjunction =>
              simp only [conditionFrom, hrole]
              split
              next => exact hmisplaced
              next hready =>
                rw [Bool.or_eq_true, not_or, Bool.not_eq_true, Bool.not_eq_true] at hready
                apply ih htaken
                exact hreached.connector (conditionRole_eq_connector_iff.mp hrole) hready.1 hready.2
          | part =>
              simp only [conditionFrom, hrole]
              split
              next hwants =>
                rw [bind_apply]
                rcases conditionPart_cases hrole rest engine out with
                  ⟨more, left, text, after, rfl, hatom, hgives, hpart⟩ |
                  ⟨stop, after, written, htoken, hcommand, hpart⟩
                · have htaken : tokens = (read ++ token :: more) ++ left := by simp [htokens]
                  rw [hpart]
                  dsimp only
                  rw [bind_apply]
                  cases htruth : Value.toBool text with
                  | ok truth => exact ih htaken (hreached.part hwants hatom hgives htruth)
                  | error error => exact .unreadable htaken hreached hgives htruth
                · rw [hpart]
                  exact .stopped htokens hreached htoken hcommand
              next => exact hmisplaced

/-! ## Reading formulas -/

omit [Store S] in
/-- A part that is a truth value is taken in. -/
theorem conditionFrom_of_part {run : Runner S} {ifSpan : Span} {budget : Nat}
    {condition : PartialCondition} {token : Token} {rest left : List Token}
    {frame after : Frame S} {text : String} {truth : Bool}
    (hrole : conditionRole token = .part) (hwants : condition.wantsPart = true)
    (hpart : conditionPart run token rest frame = .ok (left, text) after)
    (htruth : Value.toBool text = .ok truth) :
    conditionFrom run ifSpan (budget + 1) condition (token :: rest) frame =
      conditionFrom run ifSpan budget (condition.join truth) left after := by
  simp only [conditionFrom, hrole, hwants, if_true, bind_apply, hpart, htruth]
  rfl

/-- With enough fuel, an evaluation passes from one partial condition to another by taking some
tokens, whatever follows them. -/
def Passes (piece : List Token) (condition : PartialCondition) (engine : Engine S)
    (next : PartialCondition) (after : Engine S) : Prop :=
  ∃ steps least, ∀ fuel, least ≤ fuel → ∀ ifSpan budget tail out,
    conditionFrom (command fuel) ifSpan (budget + steps) condition (piece ++ tail) ⟨engine, out⟩ =
      conditionFrom (command fuel) ifSpan budget next tail ⟨after, out⟩

namespace Passes

variable {engine middle after : Engine S} {condition between next : PartialCondition}

theorem nil : Passes [] condition engine condition engine :=
  ⟨0, 0, fun _ _ _ _ _ _ => rfl⟩

theorem trans {first second : List Token} (hfirst : Passes first condition engine between middle)
    (hsecond : Passes second between middle next after) :
    Passes (first ++ second) condition engine next after := by
  obtain ⟨steps, least, hfirst⟩ := hfirst
  obtain ⟨steps', least', hsecond⟩ := hsecond
  refine ⟨steps' + steps, max least least', fun fuel hfuel ifSpan budget tail out => ?_⟩
  rw [List.append_assoc, ← Nat.add_assoc, hfirst fuel (by omega), hsecond fuel (by omega)]

/-- One step is taken for one token. -/
theorem of_step {token : Token}
    (hstep : ∀ fuel ifSpan budget tail out,
      conditionFrom (S := S) (command fuel) ifSpan (budget + 1) condition (token :: tail)
        ⟨engine, out⟩ = conditionFrom (command fuel) ifSpan budget next tail ⟨engine, out⟩) :
    Passes [token] condition engine next engine :=
  ⟨1, 0, fun fuel _ => hstep fuel⟩

theorem negations (negations : Negations) :
    Passes negations.tokens condition engine
      { condition with negated := condition.negated != negations.odd } engine := by
  obtain ⟨tokens, hnot⟩ := negations
  induction tokens generalizing condition with
  | nil =>
      have hsame : condition.negated = (condition.negated != Negations.none.odd) := by simp
      exact hsame ▸ nil
  | cons token tokens ih =>
      have hrole := conditionRole_eq_negation_iff.mpr (hnot token List.mem_cons_self)
      have hfirst : Passes [token] condition engine
          { condition with negated := !condition.negated } engine := by
        apply of_step
        intro fuel ifSpan budget tail out
        simp only [conditionFrom, hrole]
      have hboth := hfirst.trans (ih (List.forall_mem_cons.mp hnot).2)
      rw [Negations.odd_cons hnot]
      simpa using hboth

/-- An even number of NOTs changes nothing. -/
theorem spare {negations : Negations} (heven : negations.odd = false) :
    Passes negations.tokens condition engine condition engine := by
  have hpasses : Passes negations.tokens condition engine
      { condition with negated := condition.negated != negations.odd } engine :=
    .negations negations
  simpa [heven] using hpasses

theorem connector {token : Token} {conjunction : Bool}
    (htoken : Keyword.ofToken? token = some (.connector (if conjunction then .and else .or)))
    (before : Bool) :
    Passes [token] { value := some before } engine
      { value := some before, pending := some conjunction } engine := by
  apply of_step
  intro fuel ifSpan budget tail out
  simp only [conditionFrom, conditionRole_eq_connector_iff.mpr htoken]
  rfl

theorem atom {atom : List Token} {text : String} {truth : Bool}
    (hatom : AtomGives engine atom text after) (htruth : Value.toBool text = .ok truth)
    (hwants : condition.wantsPart = true) :
    Passes atom condition engine (condition.join truth) after := by
  cases hatom with
  | @literal token htoken =>
      apply of_step
      intro fuel ifSpan budget tail out
      have hrole : conditionRole token = .part := by
        simp [conditionRole, Token.role_of_isLiteral htoken]
      apply conditionFrom_of_part hrole hwants ?_ htruth
      rw [conditionPart, if_pos htoken]
      rfl
  | @command _ least token more _ htoken hcommand =>
      refine ⟨1, least, fun fuel hfuel ifSpan budget tail out => ?_⟩
      -- The command is run with more fuel and in front of more tokens.
      obtain ⟨_, hmore, rfl⟩ := (command_follows_of_le hfuel (token :: more)).of_ok hcommand
      have hlonger := command_append hmore tail
      apply conditionFrom_of_part (conditionRole_of_ordinary htoken) hwants ?_ htruth
      rw [conditionPart, if_neg (by simp [htoken.isLiteral_eq_false])]
      exact capture_eq_ok_iff.mpr ⟨after, hlonger, rfl⟩

theorem operand {operand : Operand} {text : String} {truth : Bool}
    (hatom : AtomGives engine operand.atom text after) (htruth : Value.toBool text = .ok truth)
    {value pending : Option Bool} (hwants : (value.isNone || pending.isSome) = true) :
    Passes operand.tokens { value := value, pending := pending } engine
      (PartialCondition.join ⟨value, pending, operand.negations.odd⟩ truth) after := by
  have hnegations : Passes operand.negations.tokens { value := value, pending := pending } engine
      { value := value, pending := pending, negated := false != operand.negations.odd } engine :=
    .negations operand.negations
  rw [Bool.false_bne] at hnegations
  exact hnegations.trans (.atom hatom htruth hwants)

theorem link {link : Link} {text : String} {truth : Bool}
    (hatom : AtomGives engine link.operand.atom text after)
    (htruth : Value.toBool text = .ok truth) (before : Bool) :
    Passes link.tokens { value := some before } engine
      { value := some (Link.join before (link, truth)) } after := by
  rw [← link.condition_join before truth]
  exact (spare link.even).trans
    ((connector link.isConnector before).trans (operand hatom htruth rfl))

theorem links {links : List Link} {truths : List Bool}
    (hatoms : AtomsGive engine (links.map (·.operand.atom)) truths after) (before : Bool) :
    Passes (links.flatMap Link.tokens) { value := some before } engine
      { value := some ((links.zip truths).foldl Link.join before) } after := by
  induction links generalizing engine truths before with
  | nil =>
      cases hatoms
      exact nil
  | cons link links ih =>
      cases hatoms with
      | cons hatom htruth hrest => exact (Passes.link hatom htruth before).trans (ih hrest _)

theorem terms {terms : Terms} {truths : List Bool}
    (hatoms : AtomsGive engine terms.atoms truths after) :
    Passes terms.tokens {} engine { value := some (terms.value truths) } after := by
  cases hatoms with
  | cons hatom htruth hrest => exact (operand hatom htruth rfl).trans (links hrest _)

theorem formula {formula : Formula} {truths : List Bool}
    (hatoms : AtomsGive engine formula.atoms truths after) :
    ∃ next : PartialCondition, Passes formula.tokens {} engine next after ∧
      next.isOpen = false ∧ next.value.getD false = formula.value truths := by
  obtain ⟨content, negations, heven⟩ := formula
  cases content with
  | none =>
      cases hatoms
      exact ⟨{}, spare heven, rfl, rfl⟩
  | some content => exact ⟨_, (terms hatoms).trans (spare heven), rfl, rfl⟩

end Passes

/-- A formula that THEN ends and whose atoms are truth values is accepted, with enough fuel. -/
theorem conditionFrom_of_formula {formula : Formula} {truths : List Bool} {engine after : Engine S}
    (hatoms : AtomsGive engine formula.atoms truths after) {thenToken : Token}
    (hthen : thenToken.branch? = some .thenWord) (ifSpan : Span) (rest : List Token)
    (out : String) :
    ∃ least, ∀ fuel budget, least ≤ fuel → least ≤ budget →
      condition budget (command fuel) ifSpan (formula.tokens ++ thenToken :: rest) ⟨engine, out⟩ =
        .ok (formula.value truths, rest) ⟨after, out⟩ := by
  obtain ⟨next, ⟨steps, least, hpasses⟩, hclosed, hvalue⟩ := Passes.formula hatoms
  refine ⟨max least (steps + 1), fun fuel budget hfuel hbudget => ?_⟩
  obtain ⟨budget, rfl⟩ := Nat.exists_eq_add_of_le hbudget
  have hsplit : max least (steps + 1) + budget =
      (max least (steps + 1) - (steps + 1) + budget + 1) + steps := by omega
  rw [condition, hsplit, hpasses fuel (by omega)]
  simp only [conditionFrom, (conditionRole_eq_ending_iff thenToken).mpr hthen, hclosed, hvalue]
  rfl

/-! ## Conditions that end -/

/-- A computation comes to an end: it succeeds or fails with an error of the language. -/
def Ends {α : Type} (action : Exec S α) (frame : Frame S) : Prop :=
  ∀ stop after, action frame = .error stop after → ∃ error, stop = .failed error

omit [Store S] in
theorem Ends.of_ok {α : Type} {action : Exec S α} {frame after : Frame S} {value : α}
    (hok : action frame = .ok value after) : Ends action frame := by
  intro stop final herror
  cases hok.symm.trans herror

omit [Store S] in
theorem Ends.of_failed {α : Type} {action : Exec S α} {frame after : Frame S} {error : RunError}
    (hfailed : action frame = .error (.failed error) after) : Ends action frame := by
  intro stop final herror
  cases hfailed.symm.trans herror
  exact ⟨error, rfl⟩

/-- The evaluation of a condition that ends gives the same with enough fuel. -/
theorem condition_of_le {budget fuel more budget' : Nat} {ifSpan : Span} {tokens : List Token}
    {frame : Frame S} (hends : Ends (condition budget (command fuel) ifSpan tokens) frame)
    (hfuel : fuel ≤ more) (hbudget : budget ≤ budget') :
    condition budget (command fuel) ifSpan tokens frame =
      condition budget' (command more) ifSpan tokens frame := by
  have hrun : InStep (S := S) .fuel Eq (command fuel) (command more) := by
    rintro token rest _ rfl -
    exact command_follows_of_le hfuel (token :: rest)
  have hfollows := conditionFrom_follows (lockstep_eq .fuel) hrun (rfl : ifSpan = ifSpan)
    (.inr ⟨hbudget, .inl rfl⟩) {} (rfl : tokens = tokens)
  rw [condition] at hends ⊢
  rw [condition]
  cases hfirst : conditionFrom (command fuel) ifSpan budget {} tokens frame with
  | ok value after =>
      obtain ⟨other, hsecond, hholds, hrest⟩ := hfollows.of_ok hfirst
      rw [hsecond, Prod.ext hholds hrest]
  | error stop after =>
      obtain ⟨error, rfl⟩ := hends stop after hfirst
      rcases hfollows.of_error hfirst with hexcused | ⟨other, hsecond, halike⟩
      · rcases hexcused with hexcused | hexcused <;> cases hexcused
      · rw [hsecond, halike.eq rfl]

/-- The atom at the front of some tokens fails, or its text is no truth value. -/
inductive AtomFails (fuel : Nat) (engine : Engine S) : List Token → RunError → Engine S → Prop
  | stopped {token : Token} {rest : List Token} {error : RunError} {after : Engine S}
      {written : String} (htoken : token.Ordinary)
      (hcommand : command fuel (token :: rest) ⟨engine, ""⟩ =
        .error (.failed error) ⟨after, written⟩) :
      AtomFails fuel engine (token :: rest) error after
  | unreadable {token : Token} {more rest : List Token} {text : String} {error : ValueError}
      {after : Engine S} (hatom : AtomGives engine (token :: more) text after)
      (herror : Value.toBool text = .error error) :
      AtomFails fuel engine (token :: more ++ rest) (.atSpan (.value error) token.span) after

/-- The evaluation of a condition that ends accepts exactly the formulas that THEN ends and whose
atoms evaluate to truth values, one after the other and all of them. It stops just after THEN with
the value of the formula, and only the atoms change the engine. A condition that fails has been
read up to some place that comes before every THEN. Either the atom there fails or is no truth
value, or a token stands there that is not expected, or no token is left. -/
theorem condition_accepts_formulas {budget fuel : Nat} {ifSpan : Span} {tokens : List Token}
    {frame : Frame S} (hends : Ends (condition budget (command fuel) ifSpan tokens) frame) :
    (∀ holds rest final,
      condition budget (command fuel) ifSpan tokens frame = .ok (holds, rest) final ↔
        ∃ (formula : Formula) (thenToken : Token) (truths : List Bool),
          tokens = formula.tokens ++ thenToken :: rest ∧ thenToken.branch? = some .thenWord ∧
          AtomsGive frame.engine formula.atoms truths final.engine ∧
          holds = formula.value truths ∧ final.out = frame.out) ∧
    (∀ error final,
      condition budget (command fuel) ifSpan tokens frame = .error (.failed error) final →
        final.out = frame.out ∧
        ∃ (stage : Stage) (truths : List Bool) (left : List Token) (after : Engine S),
          tokens = stage.tokens ++ left ∧ (∀ token ∈ stage.tokens, token.branch? = none) ∧
          AtomsGive frame.engine stage.atoms truths after ∧
          (AtomFails fuel after left error final.engine ∨
            final.engine = after ∧
              ((∃ token rest, left = token :: rest ∧
                error = .atSpan (.unexpectedToken token.text) token.span) ∨
              left = [] ∧ error = .atSpan (.imbalance .missingThen) ifSpan))) := by
  obtain ⟨engine, out⟩ := frame
  have hcases : ConditionEnds fuel ifSpan engine out tokens
      (condition budget (command fuel) ifSpan tokens ⟨engine, out⟩) :=
    conditionFrom_ends (List.nil_append tokens).symm .start
  refine ⟨fun holds rest final => ⟨fun hok => ?_, ?_⟩, fun error final herror => ?_⟩
  · rw [hok] at hcases
    cases hcases with
    | accepted htokens hthen hatoms => exact ⟨_, _, _, htokens, hthen, hatoms, rfl, rfl⟩
  · rintro ⟨formula, thenToken, truths, rfl, hthen, hatoms, rfl, hout⟩
    obtain ⟨after, out'⟩ := final
    cases hout
    obtain ⟨least, haccepts⟩ := conditionFrom_of_formula hatoms hthen ifSpan rest out
    rw [condition_of_le hends (Nat.le_max_left fuel least) (Nat.le_max_left budget least)]
    exact haccepts _ _ (Nat.le_max_right fuel least) (Nat.le_max_right budget least)
  · rw [herror] at hcases
    cases hcases with
    | @misplaced _ rest token _ _ htokens hreached =>
        obtain ⟨stage, truths, rfl, -, hatoms⟩ := hreached
        exact ⟨rfl, stage, truths, _, _, htokens, stage.branch?_eq_none, hatoms,
          .inr ⟨rfl, .inl ⟨token, rest, rfl, rfl⟩⟩⟩
    | unended hreached =>
        obtain ⟨stage, truths, rfl, -, hatoms⟩ := hreached
        exact ⟨rfl, stage, truths, [], _, (List.append_nil _).symm, stage.branch?_eq_none, hatoms,
          .inr ⟨rfl, .inr ⟨rfl, rfl⟩⟩⟩
    | stopped htokens hreached htoken hcommand =>
        obtain ⟨stage, truths, rfl, -, hatoms⟩ := hreached
        exact ⟨rfl, stage, truths, _, _, htokens, stage.branch?_eq_none, hatoms,
          .inl (.stopped htoken hcommand)⟩
    | unreadable htokens hreached hatom hvalue =>
        obtain ⟨stage, truths, rfl, -, hatoms⟩ := hreached
        rw [List.append_assoc] at htokens
        exact ⟨rfl, stage, truths, _, _, htokens, stage.branch?_eq_none, hatoms,
          .inl (.unreadable hatom hvalue)⟩

/-- In `@not no @not @not @or @concat(n,o) @then x` the first operand is true, two NOTs before the
connector change nothing, and the call is evaluated although the value is settled. Without the call
the THEN is not expected. -/
theorem condition_of_two_operands :
    let operands : List Token :=
      [⟨.word, "@not", ⟨0, 4⟩⟩, ⟨.word, "no", ⟨5, 2⟩⟩, ⟨.word, "@not", ⟨8, 4⟩⟩,
        ⟨.word, "@not", ⟨13, 4⟩⟩, ⟨.word, "@or", ⟨18, 3⟩⟩]
    let call : List Token :=
      [⟨.call, "@concat(", ⟨22, 8⟩⟩, ⟨.word, "n", ⟨30, 1⟩⟩, ⟨.comma, ",", ⟨31, 1⟩⟩,
        ⟨.word, "o", ⟨32, 1⟩⟩, ⟨.close, ")", ⟨33, 1⟩⟩]
    let ending : List Token := [⟨.word, "@then", ⟨35, 5⟩⟩, ⟨.word, "x", ⟨41, 1⟩⟩]
    let tokens := operands ++ call ++ ending
    condition 9 (command 5) ⟨0, 3⟩ tokens Frame.initial =
        .ok (true, [⟨.word, "x", ⟨41, 1⟩⟩]) Frame.initial ∧
      (∃ (formula : Formula) (thenToken : Token) (truths : List Bool),
        tokens = formula.tokens ++ thenToken :: [⟨.word, "x", ⟨41, 1⟩⟩] ∧
        thenToken.branch? = some .thenWord ∧
        AtomsGive Frame.initial.engine formula.atoms truths Frame.initial.engine ∧
        true = formula.value truths) ∧
      condition 9 (command 5) ⟨0, 3⟩ (operands ++ ending) Frame.initial =
        .error (.failed (.atSpan (.unexpectedToken "@then") ⟨35, 5⟩)) Frame.initial ∧
      ∃ (stage : Stage) (left : List Token), operands ++ ending = stage.tokens ++ left ∧
        ∀ token ∈ stage.tokens, token.branch? = none := by
  intro operands call ending tokens
  have hok : condition 9 (command 5) ⟨0, 3⟩ tokens Frame.initial =
      .ok (true, [⟨.word, "x", ⟨41, 1⟩⟩]) Frame.initial := by with_unfolding_all rfl
  have herror : condition 9 (command 5) ⟨0, 3⟩ (operands ++ ending) Frame.initial =
      .error (.failed (.atSpan (.unexpectedToken "@then") ⟨35, 5⟩)) Frame.initial := by
    with_unfolding_all rfl
  obtain ⟨formula, thenToken, truths, htokens, hthen, hatoms, hvalue, -⟩ :=
    ((condition_accepts_formulas (Ends.of_ok hok)).1 _ _ _).mp hok
  obtain ⟨-, stage, -, left, -, hsplit, hbefore, -⟩ :=
    (condition_accepts_formulas (Ends.of_failed herror)).2 _ _ herror
  exact ⟨hok, ⟨formula, thenToken, truths, htokens, hthen, hatoms, hvalue⟩, herror, stage, left,
    hsplit, hbefore⟩

end Exec

end AtScript
