import AtScript.Proofs.Acceptance

/-! # Open blocks

Calls, chains of branches and loops nest in a script when each is closed while it is the one that
was opened last. Reading the tokens from left to right, one keeps the stack of the blocks that are
open. The counts of a check say only that the stack is empty in the end; they do not say that the
blocks on the way nest.
-/

namespace AtScript.Nesting

open Check

/-! ## Reading tokens with a stack -/

/-- What can be open. -/
inductive Block where
  /-- The parentheses of a call. -/
  | call
  /-- A chain of branches, after its IF. -/
  | chain
  /-- The body of a loop. -/
  | loop (family : LoopFamily)
deriving Repr, DecidableEq

/-- Where some tokens stand in a script. -/
structure Context where
  /-- The blocks that are open, the one opened last first. -/
  blocks : List Block := []
  /-- The last branch keyword; at the start, as if a chain had just ended. -/
  last : Branch := .endIf
deriving Repr, DecidableEq

namespace Context

/-- Opens a block. -/
def opening (context : Context) (block : Block) : Context :=
  { context with blocks := block :: context.blocks }

/-- Closes a block if it is the one that was opened last. -/
def closing? (context : Context) (block : Block) : Option Context :=
  match context.blocks with
  | top :: rest => if top = block then some { context with blocks := rest } else none
  | [] => none

/-- Reads a branch keyword. ELSEIF and ELSE belong to the chain that was opened last. -/
def branch? (context : Context) (part : Branch) : Option Context :=
  let context := { context with last := part }
  match part with
  | .ifWord => some (context.opening .chain)
  | .thenWord => some context
  | .elseIf | .elseWord => if context.blocks.head? = some .chain then some context else none
  | .endIf => context.closing? .chain

/-- Reads a token, if it fits the blocks that are open. AND, OR and NOT fit only into a condition,
which an IF or ELSEIF starts and a THEN ends. -/
def step? (context : Context) (token : Token) : Option Context :=
  match Keyword.ofToken? token with
  | some (.branch part) => context.branch? part
  | some (.loop family) => some ((context.opening (.loop family)).opening .call)
  | some (.endLoop family) => context.closing? (.loop family)
  | some (.connector _) => if context.last ∈ predecessors .thenWord then some context else none
  | _ =>
    match token.kind with
    | .call => some (context.opening .call)
    | .close => context.closing? .call
    | _ => some context

end Context

/-- Whether the blocks of some tokens nest. Blocks may be left open in the end. -/
def nests (tokens : List Token) : Bool :=
  (tokens.foldlM Context.step? {}).isSome

/-! ## Steps -/

/-- What reading a token does to the open blocks, when a check lets it follow the last branch
keyword. -/
inductive Step (token : Token) : Context → Context → Prop
  | plain {context : Context} (hcall : token.kind ≠ .call) (hclose : token.kind ≠ .close)
      (htoken : ∀ keyword, Keyword.ofToken? token = some keyword → keyword.isControl = false) :
      Step token context context
  | connector {context : Context} {word : Connector}
      (htoken : Keyword.ofToken? token = some (.connector word))
      (hlast : context.last ∈ predecessors .thenWord) : Step token context context
  | call {blocks : List Block} {last : Branch} (hopener : token.Opener) :
      Step token ⟨blocks, last⟩ ⟨.call :: blocks, last⟩
  | close {blocks : List Block} {last : Branch} (hclose : token.kind = .close) :
      Step token ⟨.call :: blocks, last⟩ ⟨blocks, last⟩
  | loop {blocks : List Block} {last : Branch} {family : LoopFamily}
      (htoken : Keyword.ofToken? token = some (.loop family)) :
      Step token ⟨blocks, last⟩ ⟨.call :: .loop family :: blocks, last⟩
  | endLoop {blocks : List Block} {last : Branch} {family : LoopFamily}
      (htoken : Keyword.ofToken? token = some (.endLoop family)) :
      Step token ⟨.loop family :: blocks, last⟩ ⟨blocks, last⟩
  | ifWord {blocks : List Block} {last : Branch} (htoken : token.branch? = some .ifWord)
      (hlast : last ∈ predecessors .ifWord) :
      Step token ⟨blocks, last⟩ ⟨.chain :: blocks, .ifWord⟩
  | thenWord {blocks : List Block} {last : Branch} (htoken : token.branch? = some .thenWord)
      (hlast : last ∈ predecessors .thenWord) : Step token ⟨blocks, last⟩ ⟨blocks, .thenWord⟩
  | separator {blocks : List Block} {last part : Branch} (htoken : token.branch? = some part)
      (hpart : part = .elseIf ∨ part = .elseWord) (hlast : last ∈ predecessors part) :
      Step token ⟨.chain :: blocks, last⟩ ⟨.chain :: blocks, part⟩
  | endIf {blocks : List Block} {last : Branch} (htoken : token.branch? = some .endIf)
      (hlast : last ∈ predecessors .endIf) :
      Step token ⟨.chain :: blocks, last⟩ ⟨blocks, .endIf⟩

/-- Tokens that close all open blocks and, until then, nest in them. -/
inductive Closes : Context → List Token → Prop
  | nil {last : Branch} : Closes ⟨[], last⟩ []
  | cons {context next : Context} {token : Token} {rest : List Token}
      (hstep : Step token context next) (hrest : Closes next rest) : Closes context (token :: rest)

variable {context next : Context} {token : Token}

theorem Context.closing?_eq_some_iff {block : Block} :
    context.closing? block = some next ↔ context = ⟨block :: next.blocks, next.last⟩ := by
  obtain ⟨blocks, last⟩ := context
  obtain ⟨blocks', last'⟩ := next
  cases blocks with
  | nil => simp [closing?]
  | cons top rest =>
      simp only [closing?]
      split
      next htop => simp [htop]
      next htop => simp [htop]

theorem Step.of_branch? {part : Branch} (htoken : token.branch? = some part)
    (hlast : context.last ∈ predecessors part) (hnext : context.branch? part = some next) :
    Step token context next := by
  obtain ⟨blocks, last⟩ := context
  cases part with
  | ifWord =>
      cases hnext
      exact .ifWord htoken hlast
  | thenWord =>
      cases hnext
      exact .thenWord htoken hlast
  | endIf =>
      have hcontext := Context.closing?_eq_some_iff.mp hnext
      obtain ⟨blocks', last'⟩ := next
      cases hcontext
      exact .endIf htoken hlast
  | _ =>
      simp only [Context.branch?] at hnext
      split at hnext
      next hhead =>
        cases hnext
        obtain ⟨rest, rfl⟩ := List.head?_eq_some_iff.mp hhead
        exact .separator htoken (by simp) hlast
      next => cases hnext

/-- A token that fits the open blocks and may follow the last branch keyword is a step. -/
theorem Step.of_step? (hnext : context.step? token = some next)
    (hbranch : (branchAfter? context.last token).isSome) : Step token context next := by
  obtain ⟨blocks, last⟩ := context
  have hclosing {block : Block} (hnext : Context.closing? ⟨blocks, last⟩ block = some next) :
      Context.mk blocks last = ⟨block :: next.blocks, next.last⟩ :=
    Context.closing?_eq_some_iff.mp hnext
  rw [Context.step?] at hnext
  split at hnext
  next part hkeyword =>
    have htoken := (Token.branch?_eq_some_iff token part).mpr hkeyword
    refine .of_branch? htoken ?_ hnext
    simp only [branchAfter?, htoken] at hbranch
    split at hbranch
    next hlast => exact hlast
    next => cases hbranch
  next family hkeyword =>
    cases hnext
    exact .loop hkeyword
  next family hkeyword =>
    rw [hclosing hnext]
    exact .endLoop hkeyword
  next word hkeyword =>
    split at hnext
    next hlast =>
      cases hnext
      exact .connector hkeyword hlast
    next => cases hnext
  next hbranches hloops hends hconnectors =>
    have hcontrol : ∀ keyword, Keyword.ofToken? token = some keyword →
        keyword.isControl = false := by
      intro keyword hkeyword
      cases keyword <;> simp_all [Keyword.isControl, Keyword.isStructural]
    split at hnext
    next hkind =>
      cases hnext
      exact .call ⟨hkind, hcontrol⟩
    next hkind =>
      rw [hclosing hnext]
      exact .close hkind
    next hcall hclose =>
      cases hnext
      exact .plain hcall hclose hcontrol

/-- A token without control flow only opens or closes a parenthesis. -/
theorem Context.step?_of_isControl (context : Context) (htoken : ∀ keyword,
    Keyword.ofToken? token = some keyword → keyword.isControl = false) :
    context.step? token =
      match token.kind with
      | .call => some (context.opening .call)
      | .close => context.closing? .call
      | _ => some context := by
  rw [step?]
  split
  next hkeyword => cases htoken _ hkeyword
  next hkeyword => cases htoken _ hkeyword
  next hkeyword => cases htoken _ hkeyword
  next hkeyword => cases htoken _ hkeyword
  next => rfl

/-- Every step reads its token as `Context.step?` does. -/
theorem Step.step?_eq (hstep : Step token context next) : context.step? token = some next := by
  cases hstep with
  | plain hcall hclose htoken =>
      rw [Context.step?_of_isControl _ htoken]
      split
      next hkind => exact absurd hkind hcall
      next hkind => exact absurd hkind hclose
      next => rfl
  | connector htoken hlast => simp [Context.step?, htoken, hlast]
  | call hopener =>
      rw [Context.step?_of_isControl _ hopener.keyword]
      simp [hopener.kind, Context.opening]
  | close hclose =>
      simp [Context.step?, Token.ofToken?_eq_none_of_close hclose, hclose, Context.closing?]
  | loop htoken => simp [Context.step?, htoken, Context.opening]
  | endLoop htoken => simp [Context.step?, htoken, Context.closing?]
  | ifWord htoken hlast | thenWord htoken hlast | endIf htoken hlast =>
      rw [Token.branch?_eq_some_iff] at htoken
      simp [Context.step?, htoken, Context.branch?, Context.opening, Context.closing?]
  | separator htoken hpart hlast =>
      rw [Token.branch?_eq_some_iff] at htoken
      rcases hpart with rfl | rfl <;> simp [Context.step?, htoken, Context.branch?]

theorem Step.branchAfter?_eq (hstep : Step token context next) :
    branchAfter? context.last token = some next.last := by
  cases hstep with
  | plain hcall hclose htoken => simp [branchAfter?, (Token.Inert.of_isControl htoken).branch?]
  | connector htoken hlast | loop htoken | endLoop htoken =>
      simp [branchAfter?, Token.branch?, htoken]
  | call hopener => simp [branchAfter?, hopener.inert.branch?]
  | close hclose => simp [branchAfter?, Token.branch?, Token.ofToken?_eq_none_of_close hclose]
  | ifWord htoken hlast | thenWord htoken hlast | separator htoken _ hlast | endIf htoken hlast =>
      exact branchAfter?_eq_some htoken hlast

/-! ## The first of some tokens -/

variable {blocks : List Block} {last : Branch} {rest : List Token}

theorem Closes.exists_step (hcloses : Closes context (token :: rest)) :
    ∃ next, Step token context next ∧ Closes next rest := by
  cases hcloses with
  | cons hstep hrest => exact ⟨_, hstep, hrest⟩

theorem Closes.exists_step? (hcloses : Closes context (token :: rest)) :
    ∃ next, context.step? token = some next ∧ Closes next rest := by
  obtain ⟨next, hstep, hrest⟩ := hcloses.exists_step
  exact ⟨next, hstep.step?_eq, hrest⟩

theorem Closes.of_call (hcloses : Closes ⟨blocks, last⟩ (token :: rest)) (hopener : token.Opener) :
    Closes ⟨.call :: blocks, last⟩ rest := by
  obtain ⟨next, hnext, hrest⟩ := hcloses.exists_step?
  rw [Context.step?_of_isControl _ hopener.keyword, hopener.kind] at hnext
  cases hnext
  exact hrest

theorem Closes.of_plain (hcloses : Closes context (token :: rest)) (hcall : token.kind ≠ .call)
    (hclose : token.kind ≠ .close) (htoken : ∀ keyword,
      Keyword.ofToken? token = some keyword → keyword.isControl = false) : Closes context rest := by
  obtain ⟨next, hnext, hrest⟩ := hcloses.exists_step?
  rw [Context.step?_of_isControl _ htoken] at hnext
  split at hnext
  next hkind => exact absurd hkind hcall
  next hkind => exact absurd hkind hclose
  next =>
    cases hnext
    exact hrest

theorem Closes.of_literal (hcloses : Closes context (token :: rest))
    (htoken : token.isLiteral = true) : Closes context rest := by
  have hkind : token.kind ≠ .call ∧ token.kind ≠ .close := by grind [Token.isLiteral]
  exact hcloses.of_plain hkind.1 hkind.2 (by simp [Token.ofToken?_eq_none_of_isLiteral htoken])

theorem Closes.of_comma (hcloses : Closes context (token :: rest)) (htoken : token.kind = .comma) :
    Closes context rest :=
  hcloses.of_plain (by simp [htoken]) (by simp [htoken])
    (by simp [Token.ofToken?_eq_none_of_comma htoken])

/-- A closing parenthesis closes a call. -/
theorem Closes.of_close (hcloses : Closes ⟨blocks, last⟩ (token :: rest))
    (htoken : token.kind = .close) :
    ∃ outer, blocks = .call :: outer ∧ Closes ⟨outer, last⟩ rest := by
  obtain ⟨next, hnext, hrest⟩ := hcloses.exists_step?
  simp only [Context.step?, Token.ofToken?_eq_none_of_close htoken, htoken] at hnext
  cases Context.closing?_eq_some_iff.mp hnext
  exact ⟨_, rfl, hrest⟩

theorem Closes.of_loop {family : LoopFamily} (hcloses : Closes ⟨blocks, last⟩ (token :: rest))
    (htoken : Keyword.ofToken? token = some (.loop family)) :
    Closes ⟨.call :: .loop family :: blocks, last⟩ rest := by
  obtain ⟨next, hnext, hrest⟩ := hcloses.exists_step?
  simp only [Context.step?, htoken] at hnext
  cases hnext
  exact hrest

/-- The end of a loop closes a loop. -/
theorem Closes.of_endLoop {family : LoopFamily} (hcloses : Closes ⟨blocks, last⟩ (token :: rest))
    (htoken : Keyword.ofToken? token = some (.endLoop family)) : .loop family ∈ blocks := by
  obtain ⟨next, hnext, hrest⟩ := hcloses.exists_step?
  simp only [Context.step?, htoken] at hnext
  cases Context.closing?_eq_some_iff.mp hnext
  exact List.mem_cons_self

/-- A connector stands in a condition. -/
theorem Closes.of_connector {word : Connector} (hcloses : Closes context (token :: rest))
    (htoken : Keyword.ofToken? token = some (.connector word)) :
    context.last ∈ predecessors .thenWord ∧ Closes context rest := by
  obtain ⟨next, hnext, hrest⟩ := hcloses.exists_step?
  simp only [Context.step?, htoken] at hnext
  split at hnext
  next hlast =>
    cases hnext
    exact ⟨hlast, hrest⟩
  next => cases hnext

theorem Closes.of_branch {part : Branch} (hcloses : Closes context (token :: rest))
    (htoken : Keyword.ofToken? token = some (.branch part)) :
    context.last ∈ predecessors part ∧
      ∃ next, context.branch? part = some next ∧ Closes next rest := by
  obtain ⟨next, hstep, hrest⟩ := hcloses.exists_step
  have hnext := hstep.step?_eq
  have hlast := hstep.branchAfter?_eq
  simp only [Context.step?, htoken] at hnext
  simp only [branchAfter?, (Token.branch?_eq_some_iff token part).mpr htoken] at hlast
  split at hlast
  next hadmitted => exact ⟨hadmitted, next, hnext, hrest⟩
  next => cases hlast

/-! ## Counts and open blocks -/

/-- The pairing that a block is counted in. -/
def Block.pairing : Block → Pairing
  | .call => .parentheses
  | .chain => .chains
  | .loop family => .loops family

theorem Step.count_eq (hstep : Step token context next) (block : Block) :
    (next.blocks.count block : Int) =
      context.blocks.count block + block.pairing.change token := by
  cases hstep with
  | plain hcall hclose htoken =>
      rw [(Token.Inert.of_isControl htoken).change_eq]
      cases block <;> grind [Block.pairing, Pairing.ofKind]
  | connector htoken hlast =>
      rw [Token.change_of_isStructural _ htoken rfl]
      cases block <;> simp [Block.pairing, Pairing.ofKeyword]
  | call hopener =>
      rw [hopener.inert.change_eq, hopener.kind]
      cases block <;> simp [Block.pairing, Pairing.ofKind]
  | close hclose =>
      rw [Token.change_eq_of_close _ hclose]
      cases block <;> grind [Block.pairing, Pairing.ofKind]
  | loop htoken =>
      rw [Token.change_of_loop _ htoken]
      cases block <;> grind [Block.pairing, Pairing.ofKind, Pairing.ofKeyword]
  | endLoop htoken =>
      rw [Token.change_of_isStructural _ htoken rfl]
      cases block <;> grind [Block.pairing, Pairing.ofKeyword]
  | ifWord htoken hlast | thenWord htoken hlast | endIf htoken hlast =>
      rw [Token.change_of_branch? _ htoken]
      cases block <;> grind [Block.pairing, Pairing.ofKeyword]
  | separator htoken hpart hlast =>
      rw [Token.change_of_branch? _ htoken]
      rcases hpart with rfl | rfl <;> cases block <;> simp [Block.pairing, Pairing.ofKeyword]

/-- Tokens that nest, that a check does not refuse for their order and that close as much as they
open close all blocks. -/
theorem closes_of_excess {tokens : List Token} {final : Context}
    (hnests : tokens.foldlM Context.step? context = some final)
    (hbranches : (lastBranch? context.last tokens).isSome)
    (hexcess : ∀ block : Block,
      (context.blocks.count block : Int) + block.pairing.excess tokens = 0) :
    Closes context tokens := by
  induction tokens generalizing context with
  | nil =>
      obtain ⟨blocks, last⟩ := context
      have hempty : blocks = [] := by
        rw [List.eq_nil_iff_forall_not_mem]
        intro block hblock
        have hpositive := List.count_pos_iff.mpr hblock
        have hzero := hexcess block
        simp only [Pairing.excess_nil] at hzero
        omega
      rw [hempty]
      exact .nil
  | cons token rest ih =>
      rw [List.foldlM_cons] at hnests
      obtain ⟨next, hnext, hrest⟩ := Option.bind_eq_some_iff.mp hnests
      rw [lastBranch?_cons] at hbranches
      have hstep := Step.of_step? hnext (Option.isSome_of_isSome_bind hbranches)
      rw [hstep.branchAfter?_eq, Option.bind_some] at hbranches
      refine .cons hstep (ih hrest hbranches fun block => ?_)
      have hcount := hstep.count_eq block
      have hzero := hexcess block
      rw [Pairing.excess_cons] at hzero
      omega

/-- The tokens of an accepted script that nest close all their blocks. -/
theorem closes_of_nests {tokens : List Token} (hnests : nests tokens = true)
    (hbranches : (lastBranch? .endIf tokens).isSome)
    (hexcess : ∀ pairing : Pairing, pairing.excess tokens = 0) : Closes {} tokens := by
  obtain ⟨final, hfinal⟩ := Option.isSome_iff_exists.mp hnests
  refine closes_of_excess hfinal hbranches fun block => ?_
  simp [hexcess]

/-! ## Leaving a block -/

variable {inner inner' : List Block} {base : Block} {last' : Branch} {tokens : List Token}

/-- In a condition some chain is open. -/
def Context.Grounded (context : Context) : Prop :=
  context.last ∈ predecessors .thenWord → .chain ∈ context.blocks

theorem Step.grounded (hstep : Step token context next) (hcontext : context.Grounded) :
    next.Grounded := by
  cases hstep with
  | plain hcall hclose htoken => exact hcontext
  | connector htoken hlast => exact hcontext
  | call hopener => exact fun hlast => List.mem_cons_of_mem _ (hcontext hlast)
  | loop htoken =>
      exact fun hlast => List.mem_cons_of_mem _ (List.mem_cons_of_mem _ (hcontext hlast))
  | close hclose | endLoop htoken =>
      intro hlast
      simpa using hcontext hlast
  | ifWord htoken hlast | separator htoken hpart hlast => exact fun _ => List.mem_cons_self
  | thenWord htoken hlast | endIf htoken hlast =>
      intro hlast
      simp [predecessors] at hlast

/-- Where nothing is open, no condition is. -/
theorem Context.Grounded.settled (hgrounded : Context.Grounded ⟨[], last⟩) :
    last ∈ predecessors .ifWord := by
  cases last with
  | ifWord | elseIf => exact absurd (hgrounded (by decide)) List.not_mem_nil
  | _ => decide

/-- Where the tokens after the end of a branch stand, when `blocks` are open around the chain. -/
def BranchEnd.following (blocks : List Block) : BranchEnd → Context
  | .elseIf => ⟨.chain :: blocks, .elseIf⟩
  | .elseWord => ⟨.chain :: blocks, .elseWord⟩
  | .endIf => ⟨blocks, .endIf⟩

/-- A token that leaves the block that was opened last: it ends the block or, in a chain, starts
another branch. -/
inductive Exit (token : Token) (blocks : List Block) (last : Branch) : Block → Context → Prop
  | close (hclose : token.kind = .close) : Exit token blocks last .call ⟨blocks, last⟩
  | endLoop {family : LoopFamily} (htoken : Keyword.ofToken? token = some (.endLoop family)) :
      Exit token blocks last (.loop family) ⟨blocks, last⟩
  | branch (kind : BranchEnd) (htoken : token.branch? = some kind.keyword) :
      Exit token blocks last .chain (kind.following blocks)

/-- A token is read alike whatever blocks are open around the block it stands in, until it leaves
that block. -/
theorem Step.split (hstep : Step token ⟨inner ++ base :: blocks, last⟩ next) :
    (∃ inner' last', Step token ⟨inner, last⟩ ⟨inner', last'⟩ ∧
      next = ⟨inner' ++ base :: blocks, last'⟩) ∨
    inner = [] ∧ Exit token blocks last base next := by
  generalize hcontext : Context.mk (inner ++ base :: blocks) last = context at hstep
  cases hstep with
  | plain hcall hclose htoken => exact .inl ⟨inner, last, .plain hcall hclose htoken, hcontext.symm⟩
  | connector htoken hlast =>
      cases hcontext
      exact .inl ⟨inner, last, .connector htoken hlast, rfl⟩
  | call hopener =>
      cases hcontext
      exact .inl ⟨_, last, .call hopener, rfl⟩
  | loop htoken =>
      cases hcontext
      exact .inl ⟨_, last, .loop htoken, rfl⟩
  | ifWord htoken hlast =>
      cases hcontext
      exact .inl ⟨_, _, .ifWord htoken hlast, rfl⟩
  | thenWord htoken hlast =>
      cases hcontext
      exact .inl ⟨inner, _, .thenWord htoken hlast, rfl⟩
  -- The others ask for a certain block on top: the one at hand, or one inside it.
  | close hclose =>
      cases inner with
      | nil =>
          cases hcontext
          exact .inr ⟨rfl, .close hclose⟩
      | cons top inner =>
          cases hcontext
          exact .inl ⟨inner, last, .close hclose, rfl⟩
  | endLoop htoken =>
      cases inner with
      | nil =>
          cases hcontext
          exact .inr ⟨rfl, .endLoop htoken⟩
      | cons top inner =>
          cases hcontext
          exact .inl ⟨inner, last, .endLoop htoken, rfl⟩
  | separator htoken hpart hlast =>
      cases inner with
      | nil =>
          cases hcontext
          refine .inr ⟨rfl, ?_⟩
          rcases hpart with rfl | rfl
          · exact .branch .elseIf htoken
          · exact .branch .elseWord htoken
      | cons top inner =>
          cases hcontext
          exact .inl ⟨_, _, .separator htoken hpart hlast, rfl⟩
  | endIf htoken hlast =>
      cases inner with
      | nil =>
          cases hcontext
          exact .inr ⟨rfl, .branch .endIf htoken⟩
      | cons top inner =>
          cases hcontext
          exact .inl ⟨inner, _, .endIf htoken hlast, rfl⟩

/-! ## Searches for the end of a block -/

/-- The keywords that are counted in the search for the end of a block. -/
inductive Counted : Block → Keyword → Keyword → Prop
  | chain : Counted .chain (.branch .ifWord) (.branch .endIf)
  | loop (family : LoopFamily) : Counted (.loop family) (.loop family) (.endLoop family)

variable {block : Block} {opening close : Keyword}

theorem Counted.ne (hcounted : Counted block opening close) : opening ≠ close := by
  cases hcounted with
  | chain => exact ifWord_ne_endIf
  | loop family => exact loop_ne_endLoop family

theorem Counted.change_eq (hcounted : Counted block opening close) (token : Token) :
    block.pairing.change token =
      if Keyword.ofToken? token = some opening then 1
      else if Keyword.ofToken? token = some close then -1 else 0 := by
  cases hcounted with
  | chain =>
      rw [Pairing.change]
      cases Keyword.ofToken? token with
      | none => simp [Block.pairing, Pairing.ofKind]
      | some keyword =>
          cases keyword with
          | branch part => cases part <;> simp [Block.pairing, Pairing.ofKind, Pairing.ofKeyword]
          | _ => simp [Block.pairing, Pairing.ofKind, Pairing.ofKeyword]
  | loop family =>
      rw [Pairing.change]
      cases Keyword.ofToken? token with
      | none => simp [Block.pairing, Pairing.ofKind]
      | some keyword => cases keyword <;> simp [Block.pairing, Pairing.ofKind, Pairing.ofKeyword]

/-- As long as no block around is left, the depth of a search is the number of such blocks that are
open. -/
theorem Step.splitAtClose_eq (hcounted : Counted block opening close)
    (hstep : Step token ⟨inner, last⟩ ⟨inner', last'⟩) (rest : List Token) :
    splitAtClose opening close (inner.count block) (token :: rest) =
      (splitAtClose opening close (inner'.count block) rest).map
        fun parts => (token :: parts.1, parts.2) := by
  have hcount := hstep.count_eq block
  rw [hcounted.change_eq] at hcount
  simp only at hcount
  split at hcount
  next hopening =>
    have hdepth : inner'.count block = inner.count block + 1 := by omega
    rw [splitAtClose_opening hopening, hdepth]
  next hopening =>
    split at hcount
    next hclose =>
      have hdepth : inner.count block = inner'.count block + 1 := by omega
      rw [hdepth, splitAtClose_close_succ hcounted.ne hclose]
    next hclose =>
      have hdepth : inner'.count block = inner.count block := by omega
      rw [splitAtClose_other hopening hclose, hdepth]

theorem Step.branchEnd?_eq (hstep : Step token ⟨inner, last⟩ ⟨inner', last'⟩) (rest : List Token) :
    branchEnd? (inner.count .chain) (token :: rest) = branchEnd? (inner'.count .chain) rest := by
  have hother (hbranch : token.branch? = none) (hcount : inner'.count .chain = inner.count .chain) :
      branchEnd? (inner.count .chain) (token :: rest) = branchEnd? (inner'.count .chain) rest := by
    rw [branchEnd?_other (.inl hbranch), hcount]
  cases hstep with
  | plain hcall hclose htoken => exact hother (Token.Inert.of_isControl htoken).branch? rfl
  | connector htoken hlast => exact hother (by simp [Token.branch?, htoken]) rfl
  | call hopener => exact hother hopener.inert.branch? (by simp)
  | close hclose =>
      exact hother (by simp [Token.branch?, Token.ofToken?_eq_none_of_close hclose]) (by simp)
  | loop htoken => exact hother (by simp [Token.branch?, htoken]) (by simp)
  | endLoop htoken => exact hother (by simp [Token.branch?, htoken]) (by simp)
  | ifWord htoken hlast => rw [branchEnd?_ifWord htoken, List.count_cons_self]
  | thenWord htoken hlast => exact branchEnd?_other (.inr htoken) _ rest
  | separator htoken hpart hlast =>
      rw [List.count_cons_self, branchEnd?_separator]
      rcases hpart with rfl | rfl
      · exact .inl htoken
      · exact .inr htoken
  | endIf htoken hlast => rw [List.count_cons_self, branchEnd?_endIf htoken]

/-- No open block is closed by nothing. -/
theorem not_closes_nil : ¬Closes ⟨inner ++ base :: blocks, last⟩ [] := by
  generalize hcontext : Context.mk (inner ++ base :: blocks) last = context
  rintro ⟨⟩
  simp at hcontext

/-- The end of a loop is found. The body before it closes what it opens, and the tokens after it
close the blocks around the loop. -/
theorem Closes.exists_splitAtClose_loop {family : LoopFamily} (inner : List Block)
    (hcloses : Closes ⟨inner ++ .loop family :: blocks, last⟩ tokens)
    (hgrounded : Context.Grounded ⟨inner, last⟩) :
    ∃ body after last',
      splitAtClose (.loop family) (.endLoop family) (inner.count (.loop family)) tokens =
        some (body, after) ∧
      Closes ⟨inner, last⟩ body ∧ last' ∈ predecessors .ifWord ∧ Closes ⟨blocks, last'⟩ after := by
  induction tokens generalizing inner last with
  | nil => exact absurd hcloses not_closes_nil
  | cons token rest ih =>
      obtain ⟨next, hstep, hrest⟩ := hcloses.exists_step
      rcases hstep.split with ⟨inner', middle, hinner, rfl⟩ | ⟨rfl, hexit⟩
      · obtain ⟨body, after, last', hsplit, hbody, hlast', hafter⟩ :=
          ih inner' hrest (hinner.grounded hgrounded)
        refine ⟨token :: body, after, last', ?_, .cons hinner hbody, hlast', hafter⟩
        rw [hinner.splitAtClose_eq (.loop family), hsplit, Option.map_some]
      · cases hexit with
        | endLoop htoken =>
            have hsplit := splitAtClose_close_zero (loop_ne_endLoop family) htoken rest
            exact ⟨[], rest, last, hsplit, .nil, hgrounded.settled, hrest⟩

/-- The end of a chain is found, and the tokens after it close the blocks around the chain. -/
theorem Closes.exists_splitAtClose_chain (inner : List Block)
    (hcloses : Closes ⟨inner ++ .chain :: blocks, last⟩ tokens) :
    ∃ body after,
      splitAtClose (.branch .ifWord) (.branch .endIf) (inner.count .chain) tokens =
        some (body, after) ∧ Closes ⟨blocks, .endIf⟩ after := by
  induction tokens generalizing inner last with
  | nil => exact absurd hcloses not_closes_nil
  | cons token rest ih =>
      obtain ⟨next, hstep, hrest⟩ := hcloses.exists_step
      rcases hstep.split with ⟨inner', middle, hinner, rfl⟩ | ⟨rfl, hexit⟩
      · obtain ⟨body, after, hsplit, hafter⟩ := ih inner' hrest
        refine ⟨token :: body, after, ?_, hafter⟩
        rw [hinner.splitAtClose_eq .chain, hsplit, Option.map_some]
      · cases hexit with
        | branch kind htoken =>
            rw [Token.branch?_eq_some_iff] at htoken
            -- The chain goes on after an ELSEIF or ELSE, and ends at its ENDIF.
            cases kind with
            | endIf =>
                exact ⟨[], rest, splitAtClose_close_zero ifWord_ne_endIf htoken rest, hrest⟩
            | _ =>
                obtain ⟨body, after, hsplit, hafter⟩ := ih [] hrest
                refine ⟨token :: body, after, ?_, hafter⟩
                rw [splitAtClose_other (by simp [htoken, BranchEnd.keyword])
                  (by simp [htoken, BranchEnd.keyword]), hsplit, Option.map_some]

/-- The end of a branch is found, and the tokens after it close what is open there. -/
theorem Closes.exists_branchEnd_inside (inner : List Block)
    (hcloses : Closes ⟨inner ++ .chain :: blocks, last⟩ tokens) :
    ∃ kind after, branchEnd? (inner.count .chain) tokens = some (kind, after) ∧
      Closes (kind.following blocks) after := by
  induction tokens generalizing inner last with
  | nil => exact absurd hcloses not_closes_nil
  | cons token rest ih =>
      obtain ⟨next, hstep, hrest⟩ := hcloses.exists_step
      rcases hstep.split with ⟨inner', middle, hinner, rfl⟩ | ⟨rfl, hexit⟩
      · obtain ⟨kind, after, hend, hafter⟩ := ih inner' hrest
        exact ⟨kind, after, by rw [hinner.branchEnd?_eq, hend], hafter⟩
      · cases hexit with
        | branch kind htoken => exact ⟨kind, rest, branchEnd?_zero kind htoken rest, hrest⟩

/-- The end of the branch that the tokens are in, with no block open inside it. -/
theorem Closes.exists_branchEnd (hcloses : Closes ⟨.chain :: blocks, last⟩ tokens) :
    ∃ kind after, branchEnd? 0 tokens = some (kind, after) ∧
      Closes (kind.following blocks) after :=
  exists_branchEnd_inside [] hcloses

/-- The end of the chain that the tokens are in. -/
theorem Closes.exists_afterEndIf (hcloses : Closes ⟨.chain :: blocks, last⟩ tokens) :
    ∃ after, afterEndIf? tokens = some after ∧ Closes ⟨blocks, .endIf⟩ after := by
  obtain ⟨body, after, hsplit, hafter⟩ := exists_splitAtClose_chain [] hcloses
  rw [List.count_nil] at hsplit
  exact ⟨after, by rw [afterEndIf?, hsplit, Option.map_some], hafter⟩

/-- The body of the loop that the tokens are in. -/
theorem Closes.exists_loopBody {family : LoopFamily}
    (hcloses : Closes ⟨.loop family :: blocks, last⟩ tokens)
    (hlast : last ∈ predecessors .ifWord) :
    ∃ body after last', loopBody? family tokens = some (body, after) ∧ Closes ⟨[], last⟩ body ∧
      last' ∈ predecessors .ifWord ∧ Closes ⟨blocks, last'⟩ after := by
  have hgrounded : Context.Grounded ⟨[], last⟩ := by
    intro hcondition
    revert hlast hcondition
    cases last <;> decide
  exact exists_splitAtClose_loop [] hcloses hgrounded

/-! ## Substitution -/

variable {change : Token → Token}

theorem Step.map (hstep : Step token context next) (hchange : Requotes change (token :: rest)) :
    Step (change token) context next := by
  by_cases hquoted : token.kind = .quoted
  · have hkind := hchange.quoted token hquoted
    have hnone : Keyword.ofToken? token = none := by simp [Keyword.ofToken?, hquoted]
    have hnone' : Keyword.ofToken? (change token) = none := by simp [Keyword.ofToken?, hkind]
    cases hstep with
    | plain => exact .plain (by simp [hkind]) (by simp [hkind]) (by simp [hnone'])
    | call hopener => exact absurd (hquoted.symm.trans hopener.kind) (by decide)
    | close hclose => exact absurd (hquoted.symm.trans hclose) (by decide)
    | _ => simp_all [Token.branch?]
  · rwa [hchange.head_eq hquoted]

/-- Changing quoted literals keeps all blocks. -/
theorem Closes.map (hcloses : Closes context tokens) (hchange : Requotes change tokens) :
    Closes context (tokens.map change) := by
  induction hcloses with
  | nil => exact .nil
  | cons hstep hrest ih => exact .cons (hstep.map hchange) (ih hchange.tail)

end AtScript.Nesting
