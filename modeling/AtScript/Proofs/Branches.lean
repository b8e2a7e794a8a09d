import AtScript.Proofs.Context

/-! # Chains of branches

A chain of branches is a flat run of tokens. Running it evaluates its conditions in turn until one
holds, runs the body of that clause as if it stood alone, and goes on after the chain. Nothing else
of the chain is run.
-/

namespace AtScript

open Nesting

/-! ## The parts of a chain -/

/-- A condition and the body that is run when it holds. -/
structure Clause where
  /-- The IF or ELSEIF. -/
  opener : Token
  condition : List Token
  thenToken : Token
  body : List Token
  condition_plain : ∀ token ∈ condition, token.branch? = none
  then_spelled : thenToken.branch? = some .thenWord
  body_balanced : BranchBalanced false body

/-- The body that is run when no condition holds. -/
structure Alternative where
  /-- The ELSE. -/
  opener : Token
  body : List Token
  else_spelled : opener.branch? = some .elseWord
  body_balanced : BranchBalanced false body

/-- A whole chain, from its IF to its ENDIF. -/
structure Chain where
  first : Clause
  others : List Clause
  otherwise : Option Alternative
  last : Token
  if_spelled : first.opener.branch? = some .ifWord
  elseIf_spelled : ∀ clause ∈ others, clause.opener.branch? = some .elseIf
  endIf_spelled : last.branch? = some .endIf

/-- The tokens of a clause after its opener. -/
def Clause.inner (clause : Clause) : List Token :=
  clause.condition ++ clause.thenToken :: clause.body

/-- The tokens of a clause. -/
def Clause.tokens (clause : Clause) : List Token :=
  clause.opener :: clause.inner

/-- The tokens of an alternative. -/
def Alternative.tokens (alternative : Alternative) : List Token :=
  alternative.opener :: alternative.body

namespace Chain

/-- All clauses, in order. -/
def clauses (chain : Chain) : List Clause :=
  chain.first :: chain.others

/-- The tokens of some clauses and of all that follows them before the ENDIF. -/
def following (chain : Chain) (rest : List Clause) : List Token :=
  rest.flatMap Clause.tokens ++ (chain.otherwise.elim [] Alternative.tokens)

/-- The tokens of a chain. -/
def tokens (chain : Chain) : List Token :=
  chain.following chain.clauses ++ [chain.last]

/-- The body that a chain runs, and the tokens between it and the end of the chain. -/
structure Selection where
  body : List Token
  closing : List Token

/-- What is selected when the first condition that holds is that of a given clause, `rest` being the
clauses after it, or when none holds. -/
def select (chain : Chain) : Option (Clause × List Clause) → Selection
  | some (clause, rest) => ⟨clause.body, chain.following rest ++ [chain.last]⟩
  | none =>
    match chain.otherwise with
    | some alternative => ⟨alternative.body, [chain.last]⟩
    | none => ⟨[], []⟩

/-- What is left of the tokens at the command that closes the body. -/
def closingCursors (chain : Chain) (chosen : Option (Clause × List Clause)) (post : List Token) :
    List (List Token) :=
  if (chain.select chosen).closing = [] then [] else [(chain.select chosen).closing ++ post]

end Chain

namespace Exec

variable {S : Type}

/-- Evaluates the conditions of some clauses, each on its own, up to the first that holds. The
result is its clause and the clauses after it. -/
def firstHolding (budget : Nat) (run : Runner S) (ifSpan : Span) :
    List Clause → Exec S (Option (Clause × List Clause))
  | [] => return none
  | clause :: rest => do
    let (holds, _) ← condition budget run ifSpan (clause.condition ++ [clause.thenToken])
    if holds then return some (clause, rest) else firstHolding budget run ifSpan rest

end Exec

/-! ## Searching a chain -/

namespace Nesting.BranchBalanced

variable {inside : Bool} {first second : List Token}

theorem append (hfirst : BranchBalanced inside first) (hsecond : BranchBalanced inside second) :
    BranchBalanced inside (first ++ second) := by
  induction hfirst with
  | nil => exact hsecond
  | other htoken _ ih => exact .other htoken (ih hsecond)
  | separator htoken _ ih => exact .separator htoken (ih hsecond)
  | block hopen hbody hlast _ _ ih =>
      rw [List.cons_append, List.append_assoc, List.cons_append]
      exact .block hopen hbody hlast (ih hsecond)

/-- What is balanced by itself is balanced inside a chain. -/
theorem within (hfirst : BranchBalanced inside first) : BranchBalanced true first := by
  induction hfirst with
  | nil => exact .nil
  | other htoken _ ih => exact .other htoken ih
  | separator htoken _ ih => exact .separator htoken ih
  | block hopen hbody hlast _ _ ih => exact .block hopen hbody hlast ih

end Nesting.BranchBalanced

/-- What may follow a body in its chain: the ENDIF, or whole clauses and then the ENDIF. -/
inductive Nesting.ChainEnd : List Token → Prop
  | endIf {last : Token} (hlast : last.branch? = some .endIf) : ChainEnd [last]
  | separator {token last : Token} {inner : List Token}
      (htoken : token.branch? = some .elseIf ∨ token.branch? = some .elseWord)
      (hinner : BranchBalanced true inner) (hlast : last.branch? = some .endIf) :
      ChainEnd (token :: (inner ++ [last]))

theorem Clause.inner_balanced (clause : Clause) : BranchBalanced true clause.inner :=
  (BranchBalanced.of_forall clause.condition_plain).append
    (.other (.inr clause.then_spelled) clause.body_balanced.within)

namespace Chain

variable (chain : Chain)

/-- What follows a clause up to the ENDIF is balanced inside the chain. -/
theorem following_balanced {rest : List Clause}
    (hrest : ∀ clause ∈ rest, clause.opener.branch? = some .elseIf) :
    BranchBalanced true (chain.following rest) := by
  induction rest with
  | nil =>
      rw [following, List.flatMap_nil, List.nil_append]
      cases chain.otherwise with
      | none => exact .nil
      | some alternative =>
          exact .separator (.inr alternative.else_spelled) alternative.body_balanced.within
  | cons clause rest ih =>
      rw [List.forall_mem_cons] at hrest
      rw [following, List.flatMap_cons, List.append_assoc]
      exact .append (.separator (.inl hrest.1) clause.inner_balanced) (ih hrest.2)

theorem following_cons (clause : Clause) (rest : List Clause) :
    chain.following (clause :: rest) =
      clause.opener :: (clause.condition ++ clause.thenToken ::
        (clause.body ++ chain.following rest)) := by
  simp [following, Clause.tokens, Clause.inner]

theorem exists_tokens_eq : ∃ tail, chain.tokens = chain.first.opener :: tail :=
  ⟨_, by rw [tokens, clauses, following_cons, List.cons_append]⟩

/-- After the body of a clause its chain ends. -/
theorem following_chainEnd {rest : List Clause}
    (hrest : ∀ clause ∈ rest, clause.opener.branch? = some .elseIf) :
    ChainEnd (chain.following rest ++ [chain.last]) := by
  cases rest with
  | cons clause rest =>
      rw [List.forall_mem_cons] at hrest
      rw [following, List.flatMap_cons, List.append_assoc clause.tokens]
      exact .separator (.inl hrest.1)
        (clause.inner_balanced.append (chain.following_balanced hrest.2)) chain.endIf_spelled
  | nil =>
      rw [following, List.flatMap_nil, List.nil_append]
      cases chain.otherwise with
      | none => exact .endIf chain.endIf_spelled
      | some alternative =>
          exact .separator (.inr alternative.else_spelled) alternative.body_balanced.within
            chain.endIf_spelled

theorem select_closing {chosen : Option (Clause × List Clause)}
    (hchosen : ∀ clause rest, chosen = some (clause, rest) → clause :: rest <:+ chain.clauses) :
    (chain.select chosen).closing = [] ∨ ChainEnd (chain.select chosen).closing := by
  cases chosen with
  | some found =>
      obtain ⟨clause, rest⟩ := found
      have hsuffix : rest <:+ chain.others := by
        rcases List.suffix_cons_iff.mp (hchosen clause rest rfl) with heq | hsuffix
        · cases heq
          exact List.suffix_rfl
        · exact (List.suffix_cons clause rest).trans hsuffix
      exact .inr (chain.following_chainEnd fun other hother =>
        chain.elseIf_spelled other (hsuffix.subset hother))
  | none =>
      rw [select]
      cases chain.otherwise with
      | none => exact .inl rfl
      | some alternative => exact .inr (.endIf chain.endIf_spelled)

end Chain

/-! ## Choosing a branch -/

namespace Exec

variable {S : Type} [Store S] (chain : Chain)

/-- One step of the choice: the condition of a clause is evaluated on its own, and its body is
passed over if it does not hold. -/
theorem chooseBranchWithin_clause (budget fuel : Nat) (ifSpan : Span) (count : Nat)
    (clause : Clause) (tail : List Token) :
    chooseBranchWithin (S := S) budget (command fuel) ifSpan (count + 1)
        (clause.condition ++ clause.thenToken :: (clause.body ++ tail)) =
      (do
        let (holds, _) ← condition budget (command fuel) ifSpan
          (clause.condition ++ [clause.thenToken])
        if holds then return clause.body ++ tail
        else match branchEnd? 0 tail with
          | some (.elseIf, after) => chooseBranchWithin budget (command fuel) ifSpan count after
          | some (.elseWord, after) => return after
          | some (.endIf, after) => return after
          | none => fail (.imbalance .missingEndIf) ifSpan) := by
  have hpassed : branchEnd? 0 (clause.body ++ tail) = branchEnd? 0 tail :=
    clause.body_balanced.branchEnd?_append nofun tail
  rw [chooseBranchWithin,
    condition_append budget fuel ifSpan clause.condition_plain clause.then_spelled, bind_assoc,
    ← hpassed]
  exact bind_congr fun value => pure_bind _ _

/-- The choice of a branch, from the condition of a clause on. Only conditions are evaluated, and
none after the first that holds. -/
theorem chooseBranchWithin_chain (budget fuel : Nat) (ifSpan : Span) (post : List Token)
    {rest : List Clause} (hrest : ∀ clause ∈ rest, clause.opener.branch? = some .elseIf)
    (clause : Clause) {count : Nat} (hcount : rest.length < count) :
    chooseBranchWithin (S := S) budget (command fuel) ifSpan count
        (clause.condition ++ clause.thenToken ::
          (clause.body ++ (chain.following rest ++ chain.last :: post))) =
      (do
        let chosen ← firstHolding budget (command fuel) ifSpan (clause :: rest)
        return (chain.select chosen).body ++ ((chain.select chosen).closing ++ post)) := by
  -- The induction is on the clauses after this one; the count only has to outlast them.
  induction rest generalizing clause count with
  | nil =>
      obtain ⟨count, rfl⟩ := Nat.exists_eq_add_one_of_ne_zero (Nat.ne_zero_of_lt hcount)
      rw [chooseBranchWithin_clause, firstHolding, bind_assoc]
      congr
      funext ⟨holds, _⟩
      cases holds with
      | true => simp [Chain.select]
      | false =>
          simp only [Bool.false_eq_true, if_false, firstHolding, pure_bind]
          rw [Chain.following, List.flatMap_nil, List.nil_append, Chain.select]
          cases chain.otherwise with
          | none =>
              rw [Option.elim_none, List.nil_append, branchEnd?_zero .endIf chain.endIf_spelled]
              rfl
          | some alternative =>
              rw [Option.elim_some, Alternative.tokens, List.cons_append,
                branchEnd?_zero .elseWord alternative.else_spelled]
              rfl
  | cons next rest ih =>
      rw [List.forall_mem_cons] at hrest
      obtain ⟨count, rfl⟩ := Nat.exists_eq_add_one_of_ne_zero (Nat.ne_zero_of_lt hcount)
      rw [chooseBranchWithin_clause, firstHolding, bind_assoc]
      congr
      funext ⟨holds, _⟩
      cases holds with
      | true => simp [Chain.select]
      | false =>
          simp only [Bool.false_eq_true, if_false]
          rw [chain.following_cons, List.cons_append, branchEnd?_zero .elseIf hrest.1,
            ← ih hrest.2 next (Nat.lt_of_succ_lt_succ hcount)]
          simp

/-- At the ELSEIF, ELSE or ENDIF after a body that was run, a chain ends at once. -/
theorem commandWith_chainEnd (budget : Nat) (run : Runner S) {closing : List Token}
    (hclosing : ChainEnd closing) (post : List Token) :
    commandWith budget run (closing ++ post) = pure post := by
  cases hclosing with
  | endIf hlast =>
      rw [Token.branch?_eq_some_iff, ← Token.role_eq_keyword_iff] at hlast
      simp [commandWith, hlast]
  | @separator token last inner htoken hinner hlast =>
      rw [Token.branch?_eq_some_iff] at hlast
      have hafter : afterEndIf? (inner ++ last :: post) = some post := by
        rw [afterEndIf?, hinner.passedOver.splitAtClose_eq ifWord_ne_endIf hlast, Option.map_some]
      simp only [Token.branch?_eq_some_iff, ← Token.role_eq_keyword_iff] at htoken
      rcases htoken with hrole | hrole <;> simp [commandWith, hrole, hafter]

variable {chain}

/-- At its IF, a chain chooses a branch and goes on at the body. -/
theorem command_chain {fuel : Nat} (hfuel : chain.clauses.length ≤ fuel) (post : List Token) :
    command (S := S) (fuel + 1) (chain.tokens ++ post) =
      (do
        let chosen ← firstHolding fuel (command fuel) chain.first.opener.span chain.clauses
        return (chain.select chosen).body ++ ((chain.select chosen).closing ++ post)) := by
  have hrole := chain.if_spelled
  rw [Token.branch?_eq_some_iff, ← Token.role_eq_keyword_iff] at hrole
  rw [Chain.clauses, ← chooseBranchWithin_chain chain fuel fuel chain.first.opener.span post
    chain.elseIf_spelled chain.first hfuel, Chain.tokens, Chain.clauses, chain.following_cons]
  simp [command, commandWith, hrole, chooseBranch]

omit [Store S] in
/-- What is chosen is a clause among those given, with all that follow it. -/
theorem firstHolding_suffix (budget : Nat) (run : Runner S) (ifSpan : Span)
    (clauses : List Clause) :
    Ensures (fun _ => True)
      (fun chosen => ∀ clause rest, chosen = some (clause, rest) → clause :: rest <:+ clauses)
      (firstHolding budget run ifSpan clauses) := by
  induction clauses with
  | nil => exact .pure nofun
  | cons clause rest ih =>
      refine (Ensures.anyway _).andThen fun value => ?_
      dsimp only
      split
      · refine .pure ?_
        rintro _ _ ⟨⟩
        exact List.suffix_rfl
      · refine ih.mono fun chosen hchosen other others heq => ?_
        exact (hchosen other others heq).trans (List.suffix_cons clause rest)

/-- The keyword that closes the body that was run, if there is one, takes the run behind the
chain. -/
theorem trace_closing {fuel : Nat} {ifSpan : Span} {frame middle : Frame S}
    {chosen : Option (Clause × List Clause)}
    (hchosen : firstHolding fuel (command fuel) ifSpan chain.clauses frame = .ok chosen middle)
    (post : List Token) (after : Frame S) :
    Trace (command (fuel + 1)) ((chain.select chosen).closing ++ post) after
      (chain.closingCursors chosen post) post after := by
  have hsuffix := (firstHolding_suffix fuel (command fuel) ifSpan _).of_ok hchosen
  rw [Chain.closingCursors]
  -- Nothing is closed when no condition holds and there is no ELSE: the ENDIF has been taken.
  rcases chain.select_closing hsuffix with hnil | hclosing
  · rw [hnil, if_pos rfl]
    exact .done
  · have hcommand : command (fuel + 1) ((chain.select chosen).closing ++ post) after =
        .ok post after := by
      rw [command, commandWith_chainEnd fuel (command fuel) hclosing]
      rfl
    generalize (chain.select chosen).closing = closing at hclosing hcommand
    cases hclosing with
    | endIf => exact .step hcommand .done
    | separator => exact .step hcommand .done

/-- A chain evaluates its conditions in order, each as if it stood alone, up to the first that
holds. If the body of that clause succeeds on its own, then the commands of the run are the IF, the
commands of that body and the keyword that closes it; the frame after them is that of the body
alone, and the run goes on behind the chain. The fuel has to cover the number of clauses. -/
theorem run_chain_eq_run_first_true_body {fuel : Nat} (hfuel : chain.clauses.length ≤ fuel)
    (post : List Token) (frame : Frame S) :
    command (fuel + 1) (chain.tokens ++ post) frame =
        (do
          let chosen ← firstHolding fuel (command fuel) chain.first.opener.span chain.clauses
          return (chain.select chosen).body ++ ((chain.select chosen).closing ++ post)) frame ∧
      ∀ chosen middle after,
        firstHolding fuel (command fuel) chain.first.opener.span chain.clauses frame =
            .ok chosen middle →
          sequenceAll (command (fuel + 1)) (chain.select chosen).body middle = .ok () after →
            ∃ inner, Trace (command (fuel + 1)) (chain.select chosen).body middle inner [] after ∧
              Trace (command (fuel + 1)) (chain.tokens ++ post) frame
                ((chain.tokens ++ post) ::
                  (inner.map (· ++ ((chain.select chosen).closing ++ post)) ++
                    chain.closingCursors chosen post))
                post after ∧
              sequenceAll (command (fuel + 1)) (chain.tokens ++ post) frame =
                sequenceAll (command (fuel + 1)) post after := by
  refine ⟨by rw [command_chain hfuel], ?_⟩
  intro chosen middle after hchosen hbody
  obtain ⟨inner, hinner⟩ := exists_trace_of_sequence hbody
  have hopening : command (fuel + 1) (chain.tokens ++ post) frame =
      .ok ((chain.select chosen).body ++ ((chain.select chosen).closing ++ post)) middle := by
    rw [command_chain hfuel, bind_apply, hchosen]
    rfl
  obtain ⟨tail, htokens⟩ := chain.exists_tokens_eq
  rw [htokens, List.cons_append] at hopening ⊢
  have htrace : Trace (command (fuel + 1)) (chain.first.opener :: (tail ++ post)) frame _ post
      after :=
    .step hopening ((hinner.append _).trans (trace_closing hchosen post after))
  exact ⟨inner, hinner, htrace, htrace.sequenceAll_eq (command_advances _)⟩

/-- The chain `@if false @then a @elseif true @then b @if true @then c @endif @else d @endif`. -/
def sampleChain : Chain where
  first :=
    { opener := ⟨.word, "@if", ⟨0, 3⟩⟩
      condition := [⟨.word, "false", ⟨4, 5⟩⟩]
      thenToken := ⟨.word, "@then", ⟨10, 5⟩⟩
      body := [⟨.word, "a", ⟨16, 1⟩⟩]
      condition_plain := by decide +kernel
      then_spelled := by decide +kernel
      body_balanced := .of_forall (by decide +kernel) }
  others :=
    [{ opener := ⟨.word, "@elseif", ⟨18, 7⟩⟩
       condition := [⟨.word, "true", ⟨26, 4⟩⟩]
       thenToken := ⟨.word, "@then", ⟨31, 5⟩⟩
       body := [⟨.word, "b", ⟨37, 1⟩⟩, ⟨.word, "@if", ⟨39, 3⟩⟩, ⟨.word, "true", ⟨43, 4⟩⟩,
         ⟨.word, "@then", ⟨48, 5⟩⟩, ⟨.word, "c", ⟨54, 1⟩⟩, ⟨.word, "@endif", ⟨56, 6⟩⟩]
       condition_plain := by decide +kernel
       then_spelled := by decide +kernel
       body_balanced := by
        have hinner : BranchBalanced true [⟨.word, "true", ⟨43, 4⟩⟩, ⟨.word, "@then", ⟨48, 5⟩⟩,
            ⟨.word, "c", ⟨54, 1⟩⟩] :=
          .other (by decide +kernel) (.other (by decide +kernel) (.other (by decide +kernel) .nil))
        exact .other (by decide +kernel)
          (.block (by decide +kernel) hinner (by decide +kernel) .nil) }]
  otherwise := some
    { opener := ⟨.word, "@else", ⟨63, 5⟩⟩
      body := [⟨.word, "d", ⟨69, 1⟩⟩]
      else_spelled := by decide +kernel
      body_balanced := .of_forall (by decide +kernel) }
  last := ⟨.word, "@endif", ⟨71, 6⟩⟩
  if_spelled := by decide +kernel
  elseIf_spelled := by decide +kernel
  endIf_spelled := by decide +kernel

/-- The first clause is passed over, the second one is run with the chain in it, and what follows
the chain is run after it. -/
theorem run_sampleChain :
    sampleChain.clauses.length ≤ 3 ∧
      sequenceAll (command 4) (sampleChain.tokens ++ [⟨.word, "e", ⟨78, 1⟩⟩]) .initial =
        sequenceAll (command 4) [⟨.word, "e", ⟨78, 1⟩⟩] (Frame.initial.write "bc") := by
  have hclauses : sampleChain.clauses.length ≤ 3 := by decide
  have hchosen : firstHolding 3 (command 3) sampleChain.first.opener.span sampleChain.clauses
      .initial = .ok (some (sampleChain.others.head (by decide), [])) .initial := by
    with_unfolding_all rfl
  have hbody : sequenceAll (command 4)
      (sampleChain.select (some (sampleChain.others.head (by decide), []))).body .initial =
        .ok () (Frame.initial.write "bc") := by with_unfolding_all rfl
  obtain ⟨_, _, _, hrun⟩ := (run_chain_eq_run_first_true_body hclauses
    [⟨.word, "e", ⟨78, 1⟩⟩] .initial).2 _ _ _ hchosen hbody
  exact ⟨hclauses, hrun⟩

end Exec

end AtScript
