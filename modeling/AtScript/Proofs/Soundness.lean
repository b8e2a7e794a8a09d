import AtScript.Engine.Run
import AtScript.Proofs.Blame
import AtScript.Proofs.Grammar

/-! # Well-formed programs keep their structure

A well-formed program never fails for a broken pairing or a misplaced token of its own. What is left
of it at the start of a command is a *pending* program: a program, inside a body of a chain, inside
a body of a chain and so on. Every command that succeeds leaves a pending program again.
-/

namespace AtScript

open Grammar

/-! ## Atoms -/

namespace Token

/-- A token that runs a keyword without control flow or a stored script. -/
def Ordinary (token : Token) : Prop :=
  token.role = .stored ∨ ∃ keyword, token.role = .keyword keyword ∧ keyword.isControl = false

theorem ordinary_of_isControl {token : Token} (hkind : token.kind ≠ .comma ∧ token.kind ≠ .close)
    (hliteral : token.isLiteral = false) (hkeyword : ∀ keyword,
      Keyword.ofToken? token = some keyword → keyword.isControl = false) : token.Ordinary := by
  cases hfound : Keyword.ofToken? token with
  | some keyword => exact .inr ⟨keyword, role_eq_keyword_iff.mpr hfound, hkeyword keyword hfound⟩
  | none =>
      refine .inl ?_
      rw [role]
      split
      next hcomma => exact absurd hcomma hkind.1
      next hclose => exact absurd hclose hkind.2
      next => simp [hliteral, hfound]

theorem BareWord.ordinary {token : Token} (hword : token.BareWord) : token.Ordinary := by
  refine ordinary_of_isControl (by simp [hword.kind]) ?_ fun _ => hword.isControl
  simp [isLiteral, hword.kind, hword.hasAt]

theorem Opener.ordinary {token : Token} (hopener : token.Opener) : token.Ordinary := by
  refine ordinary_of_isControl (by simp [hopener.kind]) ?_ hopener.keyword
  simp [isLiteral, hopener.kind]

theorem role_of_isLiteral {token : Token} (hliteral : token.isLiteral = true) :
    token.role = .literal token.literalValue := by
  rw [role]
  split
  next hcomma => simp [isLiteral, hcomma] at hliteral
  next hclose => simp [isLiteral, hclose] at hliteral
  next => rw [if_pos hliteral]

end Token

namespace Exec

variable {S : Type} {run : Runner S}

/-- A runner that takes exactly the atom at the front of some tokens. -/
def TakesAtoms (run : Runner S) : Prop :=
  ∀ piece rest, Atom piece → Ensures Stop.Sound (· = rest) (run (piece ++ rest))

theorem argumentsFrom_sound (hrun : TakesAtoms run) (opener : Token) (budget : Nat) (part : String)
    (begun : Bool) {inner : List Token} (hinner : Arguments inner) {close : Token}
    (hclose : close.kind = .close) (rest : List Token) :
    Ensures Stop.Sound (fun value => value.2 = rest)
      (argumentsFrom run opener budget part begun (inner ++ close :: rest)) := by
  induction budget generalizing part begun inner with
  | zero => exact .throw nofun
  | succ budget ih =>
      -- An atom that is not a literal is run, and then the rest of the arguments is read.
      have hcommand {token : Token} {tokens more : List Token} (htoken : token.Ordinary)
          (hmore : Arguments more) (hatom : Ensures Stop.Sound (· = more ++ close :: rest)
            (run (token :: tokens))) :
          Ensures Stop.Sound (fun value => value.2 = rest)
            (argumentsFrom run opener (budget + 1) part begun (token :: tokens)) := by
        have hboth : Ensures Stop.Sound (fun value => value.2 = rest)
            (capture (run (token :: tokens)) >>= fun value =>
              argumentsFrom run opener budget (part ++ value.2) true value.1) := by
          refine hatom.capture.bind ?_
          rintro ⟨_, text⟩ rfl
          exact ih _ true hmore
        rw [argumentsFrom]
        rcases htoken with hrole | ⟨keyword, hrole, hcontrol⟩
        · simpa only [hrole] using hboth
        · simpa only [hrole, hcontrol, Bool.false_eq_true, if_false] using hboth
      cases hinner with
      | nil =>
          simp only [List.nil_append, argumentsFrom, Token.role, hclose]
          exact .pure rfl
      | comma htoken hmore =>
          simp only [List.cons_append, argumentsFrom, Token.role, htoken]
          exact (ih "" true hmore).bind fun value hvalue => .pure hvalue
      | literal htoken hmore =>
          simp only [List.cons_append, argumentsFrom, Token.role_of_isLiteral htoken]
          exact ih _ true hmore
      | word htoken hmore =>
          exact hcommand htoken.ordinary hmore (hrun [_] _ (.word htoken))
      | @call opener' close' inner' more hopener hinner' hclose' hmore =>
          have hatom := hrun _ (more ++ close :: rest) (.call hopener hinner' hclose')
          rw [List.cons_append, List.append_assoc, List.singleton_append] at hatom
          rw [List.cons_append, List.append_assoc, List.cons_append]
          exact hcommand hopener.ordinary hmore hatom

theorem arguments_sound (hrun : TakesAtoms run) (budget : Nat) {opener : Token}
    (hopener : opener.kind = .call) {inner : List Token} (hinner : Arguments inner) {close : Token}
    (hclose : close.kind = .close) (rest : List Token) :
    Ensures Stop.Sound (fun value => value.2 = rest)
      (arguments budget run opener (inner ++ close :: rest)) := by
  rw [arguments, if_pos hopener]
  exact argumentsFrom_sound hrun opener budget "" false hinner hclose rest

variable [Store S]

/-- An ordinary command leaves what its arguments leave. Apart from its arguments it stops for no
structural reason. -/
theorem commandWith_of_arguments {stopped : Stop RunError → Prop}
    (hstopped : ∀ stop, stop.Sound → stopped stop) (budget : Nat) {token : Token}
    (htoken : token.Ordinary) {tokens : List Token} {result : List Token → Prop}
    (hword : token.kind ≠ .call → result tokens)
    (harguments : Ensures stopped (fun value => result value.2)
      (arguments budget run token tokens)) :
    Ensures stopped result (commandWith budget run (token :: tokens)) := by
  rcases htoken with hrole | ⟨keyword, hrole, hcontrol⟩
  · simp only [commandWith, hrole, storedCall]
    refine (store_sound.excuse hstopped).andThen fun current => ?_
    split
    · split
      · exact (fail_sound rfl token.span).excuse hstopped
      · refine harguments.bind fun value hvalue => ?_
        refine ((checkArity_sound _ _ _).excuse hstopped).andThen fun _ => ?_
        exact ((nested_sound run _).excuse hstopped).andThen fun _ => .pure hvalue
    next hkind =>
      split
      · exact (fail_sound rfl token.span).excuse hstopped
      · exact ((nested_sound run _).excuse hstopped).andThen fun _ => .pure (hword hkind)
  · rw [commandWith_ordinary budget run hrole hcontrol, builtinCall]
    refine harguments.bind fun value hvalue => ?_
    refine ((checkArity_sound _ _ _).excuse hstopped).andThen fun _ => ?_
    exact ((builtin_sound run keyword token.span _).excuse hstopped).andThen fun _ => .pure hvalue

theorem commandWith_takesAtoms (hrun : TakesAtoms run) (budget : Nat) :
    TakesAtoms (commandWith budget run) := by
  intro piece rest hpiece
  cases hpiece with
  | literal htoken =>
      simp only [List.singleton_append, commandWith, Token.role_of_isLiteral htoken]
      exact (modify_sound _).andThen fun _ => .pure rfl
  | word htoken =>
      refine commandWith_of_arguments (fun _ => id) budget htoken.ordinary (fun _ => rfl) ?_
      rw [arguments, if_neg (by simp [htoken.kind])]
      exact .pure rfl
  | call hopener hinner hclose =>
      rw [List.cons_append, List.append_assoc, List.singleton_append]
      exact commandWith_of_arguments (fun _ => id) budget hopener.ordinary
        (fun hkind => absurd hopener.kind hkind)
        (arguments_sound hrun budget hopener.kind hinner hclose rest)

/-! ## Conditions -/

/-- What may follow an operand: nothing, or a connector and more operands. -/
def Continues (tokens : List Token) : Prop :=
  tokens = [] ∨ ∃ token rest, tokens = token :: rest ∧
    (Keyword.ofToken? token = some (.connector .and) ∨
      Keyword.ofToken? token = some (.connector .or)) ∧ Terms rest

/-- The condition that has been read fits the tokens that are left of it. -/
def Expects (condition : PartialCondition) (tokens : List Token) : Prop :=
  Terms tokens ∧ condition.wantsPart = true ∨
    Continues tokens ∧ condition.isOpen = false ∧ (tokens = [] ∨ condition.value.isSome = true)

/-- Operands start with a negation or with an atom. -/
theorem terms_cases {tokens : List Token} (hterms : Terms tokens) :
    (∃ token rest, tokens = token :: rest ∧
      Keyword.ofToken? token = some (.connector .not) ∧ Terms rest) ∨
    ∃ piece rest, tokens = piece ++ rest ∧ Atom piece ∧ Continues rest := by
  cases hterms with
  | last hpiece =>
      cases hpiece with
      | atom hpiece => exact .inr ⟨tokens, [], by simp, hpiece, .inl rfl⟩
      | negation htoken hpiece => exact .inl ⟨_, _, rfl, htoken, .last hpiece⟩
  | join hpiece hconnector hrest =>
      cases hpiece with
      | atom hpiece => exact .inr ⟨_, _, rfl, hpiece, .inr ⟨_, _, rfl, hconnector, hrest⟩⟩
      | negation htoken hpiece => exact .inl ⟨_, _, rfl, htoken, .join hpiece hconnector hrest⟩

theorem conditionRole_of_ordinary {token : Token} (htoken : token.Ordinary) :
    conditionRole token = .part := by
  rcases htoken with hrole | ⟨keyword, hrole, hcontrol⟩
  · simp [conditionRole, hrole]
  · cases keyword <;> simp_all [conditionRole, Keyword.isControl, Keyword.isStructural]

/-- A part that is taken in leaves a condition that may end. -/
theorem PartialCondition.join_closed (condition : PartialCondition) (part : Bool) :
    (condition.join part).isOpen = false ∧ (condition.join part).value.isSome = true := by
  rw [PartialCondition.join]
  split <;> exact ⟨rfl, rfl⟩

omit [Store S] in
/-- The first part of a condition is an atom, and it is taken as a whole. -/
theorem conditionPart_sound (hrun : TakesAtoms run) {piece rest : List Token}
    (hpiece : Atom piece) :
    ∃ token tokens, piece ++ rest = token :: tokens ∧ conditionRole token = .part ∧
      Ensures Stop.Sound (fun value => value.1 = rest) (conditionPart run token tokens) := by
  have hatom := hrun piece rest hpiece
  cases hpiece with
  | literal htoken =>
      refine ⟨_, rest, rfl, by simp [conditionRole, Token.role_of_isLiteral htoken], ?_⟩
      rw [conditionPart, if_pos htoken]
      exact .pure rfl
  | word htoken =>
      refine ⟨_, rest, rfl, conditionRole_of_ordinary htoken.ordinary, ?_⟩
      rw [conditionPart, if_neg (by simp [Token.isLiteral, htoken.kind, htoken.hasAt])]
      exact hatom.capture
  | call hopener hinner hclose =>
      refine ⟨_, _, rfl, conditionRole_of_ordinary hopener.ordinary, ?_⟩
      rw [conditionPart, if_neg (by simp [Token.isLiteral, hopener.kind])]
      exact hatom.capture

omit [Store S] in
theorem conditionFrom_sound (hrun : TakesAtoms run) (ifSpan : Span) (budget : Nat)
    {condition : PartialCondition} {tokens : List Token} (hexpects : Expects condition tokens)
    {thenToken : Token} (hthen : thenToken.branch? = some .thenWord) (rest : List Token) :
    Ensures Stop.Sound (fun value => value.2 = rest)
      (conditionFrom run ifSpan budget condition (tokens ++ thenToken :: rest)) := by
  induction budget generalizing condition tokens with
  | zero => exact .throw nofun
  | succ budget ih =>
      rcases hexpects with ⟨hterms, hwants⟩ | ⟨hcontinues, hclosed, hvalue⟩
      · rcases terms_cases hterms with
          ⟨token, more, rfl, htoken, hmore⟩ | ⟨piece, more, rfl, hpiece, hmore⟩
        · have hrole := Token.role_eq_keyword_iff.mpr htoken
          simp only [List.cons_append, conditionFrom, conditionRole, hrole]
          exact ih (.inl ⟨hmore, hwants⟩)
        · obtain ⟨token, after, heq, hrole, hpart⟩ := conditionPart_sound hrun hpiece
          rw [List.append_assoc, heq, conditionFrom, hrole]
          simp only [hwants, if_true]
          refine hpart.bind ?_
          rintro ⟨_, text⟩ rfl
          refine (ofValue_sound token.span _).andThen fun part => ?_
          obtain ⟨hopen, hsome⟩ := condition.join_closed part
          exact ih (.inr ⟨hmore, hopen, .inr hsome⟩)
      · rcases hcontinues with rfl | ⟨token, more, rfl, htoken, hmore⟩
        · have hrole := (conditionRole_eq_ending_iff thenToken).mpr hthen
          simp only [List.nil_append, conditionFrom, hrole, hclosed, Bool.false_eq_true, if_false]
          exact .pure rfl
        · have hsome : condition.value.isSome = true :=
            hvalue.resolve_left (List.cons_ne_nil token more)
          have hnone : condition.value.isNone = false := by simp [← Option.not_isSome, hsome]
          simp only [← Token.role_eq_keyword_iff] at htoken
          rcases htoken with hrole | hrole <;>
          · simp only [List.cons_append, conditionFrom, conditionRole, hrole, hnone, hclosed,
              Bool.or_false, Bool.false_eq_true, if_false]
            exact ih (.inl ⟨hmore, by simp [PartialCondition.wantsPart]⟩)

omit [Store S] in
/-- A well-formed condition is read up to its THEN. -/
theorem condition_sound (hrun : TakesAtoms run) (budget : Nat) (ifSpan : Span)
    {tokens : List Token} (hcondition : Condition tokens) {thenToken : Token}
    (hthen : thenToken.branch? = some .thenWord) (rest : List Token) :
    Ensures Stop.Sound (fun value => value.2 = rest)
      (condition budget run ifSpan (tokens ++ thenToken :: rest)) := by
  refine conditionFrom_sound hrun ifSpan budget ?_ hthen rest
  rcases hcondition with rfl | hterms
  · exact .inr ⟨.inl rfl, rfl, .inl rfl⟩
  · exact .inl ⟨hterms, rfl⟩

end Exec

/-! ## Pending programs -/

namespace Grammar

/-- What may be left of a program at the start of a command. -/
inductive Pending : List Token → Prop
  | program {tokens : List Token} (hprogram : WellFormed .program tokens) : Pending tokens
  | inside {body chainRest rest : List Token} (hbody : WellFormed .program body)
      (hchain : WellFormed .chainRest chainRest) (hrest : Pending rest) :
      Pending (body ++ (chainRest ++ rest))

end Grammar

namespace Exec

variable {S : Type} {run : Runner S}

/-- A chain of branches goes on in the body that it chooses. -/
theorem chooseBranchWithin_sound (hrun : TakesAtoms run) (budget : Nat) (ifSpan : Span)
    (count : Nat) {condition body chainRest rest : List Token} {thenToken : Token}
    (hcondition : Condition condition) (hthen : thenToken.branch? = some .thenWord)
    (hbody : WellFormed .program body) (hchain : WellFormed .chainRest chainRest)
    (hrest : Pending rest) :
    Ensures Stop.Sound Pending (chooseBranchWithin budget run ifSpan count
      (condition ++ thenToken :: (body ++ (chainRest ++ rest)))) := by
  induction count generalizing condition body chainRest thenToken with
  | zero => exact .throw nofun
  | succ count ih =>
      refine (condition_sound hrun budget ifSpan hcondition hthen _).bind ?_
      rintro ⟨holds, _⟩ rfl
      cases holds with
      | true => exact .pure (.inside hbody hchain hrest)
      | false =>
          simp only [Bool.false_eq_true, if_false]
          rw [hbody.encloses.branchEnd?_append nofun]
          cases hchain with
          | elseIf helseIf hcondition' hthen' hbody' hchain' =>
              rw [List.cons_append, Nesting.branchEnd?_zero .elseIf helseIf]
              have hnext := ih hcondition' hthen' hbody' hchain'
              simpa using hnext
          | elseWord helse hbody' hlast =>
              rw [List.cons_append, Nesting.branchEnd?_zero .elseWord helse, List.append_assoc]
              exact .pure (.inside hbody' (.endIf hlast) hrest)
          | endIf hlast =>
              rw [List.singleton_append, Nesting.branchEnd?_zero .endIf hlast]
              exact .pure hrest

/-- The bodies of loops are run without structural failure. -/
def RunsBodies (run : Runner S) : Prop :=
  ∀ body, WellFormed .program body → (∀ token ∈ body, token.Steady) →
    Ensures Stop.Sound (fun _ => True) (sequenceAll run body)

/-- A loop ensures what each run of its body ensures. -/
theorem forEach_of_bodies {stopped : Stop RunError → Prop} {name : String} {body : List Token}
    (hbody : ∀ value, Ensures stopped (fun _ => True)
      (sequenceAll run (substitute name value body))) (values : List String) :
    Ensures stopped (fun _ => True) (forEach run name body values) := by
  induction values with
  | nil => exact .pure trivial
  | cons value values ih => exact (hbody value).andThen fun _ => ih

variable [Store S]

theorem loopValues_sound (family : LoopFamily) (span : Span) (arguments : List String) :
    Ensures (S := S) Stop.Sound (fun _ => True) (loopValues family span arguments) := by
  unfold loopValues
  split
  · refine (ofValue_sound span _).andThen fun first => ?_
    exact (ofValue_sound span _).andThen fun last => .pure trivial
  · exact store_sound.andThen fun current => .pure trivial
  · exact store_sound.andThen fun current => .pure trivial
  · refine store_sound.andThen fun current => ?_
    exact (ofValue_sound span _).andThen fun texts => .pure trivial
  · exact .throw nofun

/-- A loop leaves what follows its body, which has to be found after its arguments. -/
theorem loop_of_arguments {stopped : Stop RunError → Prop}
    (hstopped : ∀ stop, stop.Sound → stopped stop) (budget : Nat) {family : LoopFamily}
    {header : Token} {tokens : List Token} {result : List Token → Prop}
    (harguments : Ensures stopped
      (fun value => ∃ body after, Nesting.loopBody? family value.2 = some (body, after) ∧
        (∀ name text, Ensures stopped (fun _ => True)
          (sequenceAll run (substitute name text body))) ∧ result after)
      (arguments budget run header tokens)) :
    Ensures stopped result (loop budget run family header tokens) := by
  refine harguments.bind ?_
  rintro ⟨values, tokens⟩ ⟨body, after, hsplit, hbody, hafter⟩
  refine ((checkArity_sound _ _ _).excuse hstopped).andThen fun _ => ?_
  simp only [hsplit, iterate_eq]
  refine Ensures.andThen ?_ fun _ => .pure hafter
  exact ((loopValues_sound family header.span values).excuse hstopped).andThen
    fun found => forEach_of_bodies (hbody found.1) found.2

/-- A loop takes all its tokens, up to the end of its family. -/
theorem loop_sound (hrun : TakesAtoms run) (hbodies : RunsBodies run) (budget : Nat)
    {family : LoopFamily} {header close last : Token} {inner body : List Token}
    (hkind : header.kind = .call) (hinner : Arguments inner) (hclose : close.kind = .close)
    (hbody : WellFormed .program body) (hsteady : ∀ token ∈ body, token.Steady)
    (hlast : Keyword.ofToken? last = some (.endLoop family)) (rest : List Token) :
    Ensures Stop.Sound (· = rest)
      (loop budget run family header (inner ++ close :: (body ++ last :: rest))) := by
  refine loop_of_arguments (fun _ => id) budget ?_
  refine (arguments_sound hrun budget hkind hinner hclose _).mono ?_
  rintro ⟨values, _⟩ rfl
  refine ⟨body, rest, ?_, fun name text => ?_, rfl⟩
  · exact (hbody.passedOver family).splitAtClose_eq (Nesting.loop_ne_endLoop family) hlast
  · have hchange := substituteToken_requotes hsteady name text
    exact hbodies _ (hbody.map hchange) (hchange.steady hsteady)

/-- At the front of a program stands an atom, a loop or a chain. What it leaves is followed by
`outer`, as the program is. -/
theorem commandWith_program (hrun : TakesAtoms run) (hbodies : RunsBodies run) (budget : Nat)
    {program outer : List Token} (hprogram : WellFormed .program program) (hnonempty : program ≠ [])
    (hsteady : ∀ token ∈ program, token.Steady)
    (houter : ∀ rest, WellFormed .program rest → Pending (rest ++ outer)) :
    Ensures Stop.Sound Pending (commandWith budget run (program ++ outer)) := by
  cases hprogram with
  | nil => exact absurd rfl hnonempty
  | atom hpiece hrest =>
      rw [List.append_assoc]
      refine (commandWith_takesAtoms hrun budget _ _ hpiece).mono ?_
      rintro _ rfl
      exact houter _ hrest
  | loop hkind hheader harguments hclose hbody hlast hrest =>
      simp only [List.cons_append, List.append_assoc, commandWith,
        Token.role_eq_keyword_iff.mpr hheader]
      refine (loop_sound hrun hbodies budget hkind harguments hclose hbody ?_ hlast _).mono ?_
      · exact fun token htoken => hsteady token (by simp [htoken])
      · rintro _ rfl
        exact houter _ hrest
  | chain hif hcondition hthen hbody hchain hrest =>
      rw [Token.branch?_eq_some_iff, ← Token.role_eq_keyword_iff] at hif
      simp only [List.cons_append, List.append_assoc, commandWith, hif]
      exact chooseBranchWithin_sound hrun budget _ budget hcondition hthen hbody hchain
        (houter _ hrest)

/-- A command leaves a pending program when it is run on one. -/
theorem commandWith_sound (hrun : TakesAtoms run) (hbodies : RunsBodies run) (budget : Nat)
    {tokens : List Token} (hpending : Pending tokens) (hnonempty : tokens ≠ [])
    (hsteady : ∀ token ∈ tokens, token.Steady) :
    Ensures Stop.Sound Pending (commandWith budget run tokens) := by
  cases hpending with
  | program hprogram =>
      rw [← List.append_nil tokens]
      refine commandWith_program hrun hbodies budget hprogram hnonempty hsteady ?_
      intro rest hrest
      rw [List.append_nil]
      exact .program hrest
  | @inside body chainRest rest hbody hchain hrest =>
      -- At the end of a body the run stands at the rest of the chain, which it skips.
      by_cases hempty : body = []
      · rw [hempty, List.nil_append, commandWith_chainEnd budget run hchain.encloses]
        exact .pure hrest
      · rw [List.forall_mem_append] at hsteady
        exact commandWith_program hrun hbodies budget hbody hempty hsteady.1
          fun _ hbody' => .inside hbody' hchain hrest

/-! ## Whole programs -/

/-- A runner that keeps pending programs pending. -/
def KeepsPending (run : Runner S) : Prop :=
  ∀ tokens, Pending tokens → tokens ≠ [] → (∀ token ∈ tokens, token.Steady) →
    Ensures Stop.Sound Pending (run tokens)

omit [Store S] in
/-- Running commands one after the other keeps what each of them keeps of the tokens that are
left. -/
theorem sequence_of_invariant (invariant : List Token → Prop) {stopped : Stop RunError → Prop}
    (hfuel : stopped .outOfFuel) (hrun : ∀ token rest, invariant (token :: rest) →
      Ensures stopped invariant (run (token :: rest)))
    (budget : Nat) {tokens : List Token} (htokens : invariant tokens) :
    Ensures stopped (fun _ => True) (sequence run budget tokens) := by
  induction budget generalizing tokens with
  | zero =>
      cases tokens with
      | nil => exact .pure trivial
      | cons token rest => exact .throw hfuel
  | succ budget ih =>
      cases tokens with
      | nil =>
          simp only [sequence]
          exact .pure trivial
      | cons token rest =>
          simp only [sequence]
          exact (hrun token rest htokens).bind fun after hafter => ih hafter

omit [Store S] in
/-- A pending program is run to its end, one command after the other. -/
theorem sequence_sound (hadvances : Advances run) (hpending : KeepsPending run) (budget : Nat)
    {tokens : List Token} (htokens : Pending tokens) (hsteady : ∀ token ∈ tokens, token.Steady) :
    Ensures Stop.Sound (fun _ => True) (sequence run budget tokens) := by
  refine sequence_of_invariant (fun left => Pending left ∧ ∀ token ∈ left, token.Steady) nofun ?_
    budget ⟨htokens, hsteady⟩
  rintro token rest ⟨htokens, hsteady⟩
  refine ((hpending _ htokens (List.cons_ne_nil token rest) hsteady).and
    (hadvances token rest)).mono ?_
  rintro after ⟨hafter, hsuffix⟩
  refine ⟨hafter, fun other hother => ?_⟩
  exact hsteady other (List.mem_cons_of_mem token (hsuffix.subset hother))

omit [Store S] in
theorem runsBodies_of_keepsPending (hadvances : Advances run) (hpending : KeepsPending run) :
    RunsBodies run := by
  intro body hbody hsteady
  exact sequence_sound hadvances hpending body.length (.program hbody) hsteady

/-- Commands take atoms as a whole and keep pending programs pending. -/
theorem command_sound (fuel : Nat) :
    TakesAtoms (S := S) (command fuel) ∧ KeepsPending (S := S) (command fuel) := by
  -- Both go through one induction: a loop runs bodies, and arguments and conditions run atoms.
  induction fuel with
  | zero => exact ⟨fun _ _ _ => .throw nofun, fun _ _ _ _ => .throw nofun⟩
  | succ fuel ih =>
      obtain ⟨hatoms, hpending⟩ := ih
      have hbodies := runsBodies_of_keepsPending (command_advances fuel) hpending
      exact ⟨commandWith_takesAtoms hatoms fuel,
        fun _ htokens => commandWith_sound hatoms hbodies fuel htokens⟩

omit [Store S] in
/-- A failure that leaves only the script itself behind arose in its own tokens, or the script is
nested too deeply. -/
theorem nested_kind_of_own (property : ErrorKind → Prop)
    (hdeep : ∀ limit, property (.tooDeep limit)) {run : Runner S} {script : String}
    {frame after : Frame S} {error : RunError}
    (hown : Ensures (fun stop => ∀ error, stop = .failed error → error.trail = [] →
        property error.kind) (fun _ => True) (sequenceAll run (Token.scan script)))
    (herror : nested run script frame = .error (.failed error) after)
    (htrail : error.trail.length = 1) : property error.kind := by
  rcases nested_eq_error herror with ⟨limit, hstop⟩ | hstop | ⟨inner, middle, hscript, hstop⟩
  · cases hstop
    exact hdeep limit
  · cases hstop
  · cases inner with
    | failed cause =>
        cases hstop
        -- Nothing was recorded before the script itself.
        have htrail : cause.trail = [] := List.eq_nil_of_length_eq_zero (Nat.succ.inj htrail)
        exact hown.of_error hscript cause rfl htrail
    | outOfFuel | tooLong | defect => cases hstop

theorem nested_sound_of_wellFormed {fuel : Nat} {script : String} {frame after : Frame S}
    {error : RunError} (hwell : WellFormed .program (Token.scan script))
    (hsteady : ∀ token ∈ Token.scan script, token.Steady)
    (herror : nested (command fuel) script frame = .error (.failed error) after)
    (htrail : error.trail.length = 1) : error.kind.isStructural = false := by
  have hbodies : RunsBodies (S := S) (command fuel) :=
    runsBodies_of_keepsPending (command_advances fuel) (command_sound fuel).2
  exact nested_kind_of_own (·.isStructural = false) (fun _ => rfl) (hbodies _ hwell hsteady)
    herror htrail

end Exec

/-- A run of a well-formed script, in which placeholders occur only in quoted literals, never fails
for a broken pairing or a misplaced token in its own text. -/
theorem Engine.wellFormed_run_blames_no_structure {S : Type} [Store S] {fuel : Nat}
    {engine : Engine S} {script : String} {error : RunError}
    (hwell : WellFormed .program (Token.scan script))
    (hsteady : ∀ token ∈ Token.scan script, token.kind = .word ∨ token.kind = .call →
      '$' ∉ token.text.toList)
    (herror : (engine.runWithin fuel script).result = .error (.failed error))
    (hscripts : error.scripts.length = 1) :
    (∀ pairing, error.kind ≠ .imbalance pairing) ∧ ∀ text, error.kind ≠ .unexpectedToken text := by
  have hkind : error.kind.isStructural = false := by
    rw [Engine.runWithin] at herror
    split at herror
    · cases herror
    · split at herror
      next => cases herror
      next hnested =>
        cases herror
        rw [RunError.scripts, List.length_reverse] at hscripts
        exact Exec.nested_sound_of_wellFormed hwell hsteady hnested hscripts
  constructor
  · intro pairing hpairing
    rw [hpairing] at hkind
    cases hkind
  · intro text htext
    rw [htext] at hkind
    cases hkind

/-- A loop with a chain in its body. -/
def sampleScript : String :=
  "@for(i,1,2)@if @eq(\"$i\",2)@then @add(\"$i\",a)@endif @endfor"

theorem scan_sampleScript_wellFormed : WellFormed .program (Token.scan sampleScript) := by
  have hscan : Token.scan sampleScript =
      ⟨.call, "@for(", ⟨0, 5⟩⟩ ::
        ([⟨.word, "i", ⟨5, 1⟩⟩, ⟨.comma, ",", ⟨6, 1⟩⟩, ⟨.word, "1", ⟨7, 1⟩⟩, ⟨.comma, ",", ⟨8, 1⟩⟩,
          ⟨.word, "2", ⟨9, 1⟩⟩] ++ ⟨.close, ")", ⟨10, 1⟩⟩ ::
        ((⟨.word, "@if", ⟨11, 3⟩⟩ ::
          ((⟨.call, "@eq(", ⟨15, 4⟩⟩ ::
            ([⟨.quoted, "\"$i\"", ⟨19, 4⟩⟩, ⟨.comma, ",", ⟨23, 1⟩⟩, ⟨.word, "2", ⟨24, 1⟩⟩] ++
              [⟨.close, ")", ⟨25, 1⟩⟩])) ++ ⟨.word, "@then", ⟨26, 5⟩⟩ ::
          (((⟨.call, "@add(", ⟨32, 5⟩⟩ ::
            ([⟨.quoted, "\"$i\"", ⟨37, 4⟩⟩, ⟨.comma, ",", ⟨41, 1⟩⟩, ⟨.word, "a", ⟨42, 1⟩⟩] ++
              [⟨.close, ")", ⟨43, 1⟩⟩])) ++ []) ++ ([⟨.word, "@endif", ⟨44, 6⟩⟩] ++ [])))) ++
        ⟨.word, "@endfor", ⟨51, 7⟩⟩ :: [])) := by
    decide +kernel
  -- Both calls have two literals between their parentheses.
  have hpair {first second comma : Token} (hfirst : first.isLiteral = true)
      (hcomma : comma.kind = .comma) (hsecond : second.isLiteral = true) :
      Arguments [first, comma, second] :=
    .literal hfirst (.comma hcomma (.literal hsecond .nil))
  have hcall {token : Token} {keyword : Keyword} (hkind : token.kind = .call)
      (htoken : Keyword.ofToken? token = some keyword) (hcontrol : keyword.isControl = false) :
      token.Opener := by
    refine ⟨hkind, fun other hother => ?_⟩
    cases htoken.symm.trans hother
    exact hcontrol
  have hheader : Arguments [⟨.word, "i", ⟨5, 1⟩⟩, ⟨.comma, ",", ⟨6, 1⟩⟩, ⟨.word, "1", ⟨7, 1⟩⟩,
      ⟨.comma, ",", ⟨8, 1⟩⟩, ⟨.word, "2", ⟨9, 1⟩⟩] :=
    .literal (by decide +kernel) (.comma rfl (hpair (by decide +kernel) rfl (by decide +kernel)))
  have hfor : Keyword.ofToken? ⟨.call, "@for(", ⟨0, 5⟩⟩ = some (.loop .range) := by decide +kernel
  have heq : Keyword.ofToken? ⟨.call, "@eq(", ⟨15, 4⟩⟩ = some (.compare .eq) := by decide +kernel
  have hadd : Keyword.ofToken? ⟨.call, "@add(", ⟨32, 5⟩⟩ = some (.arithmetic .add) := by
    decide +kernel
  rw [hscan]
  exact .loop rfl hfor hheader rfl (.chain (by decide +kernel)
    (.inr (.last (.atom (.call (hcall rfl heq rfl) (hpair rfl rfl (by decide +kernel)) rfl))))
    (by decide +kernel)
    (.atom (.call (hcall rfl hadd rfl) (hpair rfl rfl (by decide +kernel)) rfl) .nil)
    (.endIf (by decide +kernel)) .nil) (by decide +kernel) .nil

/-- The second iteration fails, but not for a structural reason. -/
theorem run_sampleScript :
    ∃ error, ((Engine.new Dictionary.empty {}).runWithin 9 sampleScript).result =
        .error (.failed error) ∧ error.scripts.length = 1 ∧
      (∀ pairing, error.kind ≠ .imbalance pairing) ∧
        ∀ text, error.kind ≠ .unexpectedToken text := by
  have herror : ((Engine.new Dictionary.empty {}).runWithin 9 sampleScript).result =
      .error (.failed ⟨.value (.notNumeric "a"), some ⟨32, 5⟩, [sampleScript]⟩) := by
    decide +kernel
  have hsteady : ∀ token ∈ Token.scan sampleScript, token.kind = .word ∨ token.kind = .call →
      '$' ∉ token.text.toList := by decide +kernel
  exact ⟨_, herror, rfl,
    Engine.wellFormed_run_blames_no_structure scan_sampleScript_wellFormed hsteady herror rfl⟩

end AtScript
