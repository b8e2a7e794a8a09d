import AtScript.Check.Script
import AtScript.Proofs.Grammar
import AtScript.Proofs.IdleScripts
import Mathlib.Algebra.Ring.Int.Defs

/-! # What a check accepts

A check scans tokens once. It keeps counts and the last branch keyword, the same one for all levels
of nesting. So what it accepts can be said without the scan: the commands are known, every branch
keyword may follow the one before it, and all that is opened is closed as often. A well-formed
program has these properties at every depth, since a block that ends leaves the counts as they were
and a branch keyword that the block around it can go on from.
-/

namespace AtScript.Check

/-! ## Counts -/

/-- What has to be closed as often as it is opened. -/
inductive Pairing where
  /-- Calls and closing parentheses. -/
  | parentheses
  /-- IF and ENDIF. -/
  | chains
  /-- IF or ELSEIF, and THEN. -/
  | conditions
  /-- The openings and the ends of a family of loops. -/
  | loops (family : LoopFamily)
deriving Repr, DecidableEq

namespace Pairing

/-- What a kind of token adds to the openings, less what it adds to the ends. -/
def ofKind : Pairing → TokenKind → Int
  | .parentheses, .call => 1
  | .parentheses, .close => -1
  | _, _ => 0

/-- What a keyword adds to the openings, less what it adds to the ends. -/
def ofKeyword : Pairing → Keyword → Int
  | .chains, .branch .ifWord => 1
  | .chains, .branch .endIf => -1
  | .conditions, .branch .ifWord | .conditions, .branch .elseIf => 1
  | .conditions, .branch .thenWord => -1
  | .loops family, .loop other => if other = family then 1 else 0
  | .loops family, .endLoop other => if other = family then -1 else 0
  | _, _ => 0

/-- What a token adds to the openings, less what it adds to the ends. -/
def change (pairing : Pairing) (token : Token) : Int :=
  pairing.ofKind token.kind + (Keyword.ofToken? token).elim 0 pairing.ofKeyword

/-- Openings less ends. -/
def excess (pairing : Pairing) (tokens : List Token) : Int :=
  (tokens.map pairing.change).sum

@[simp] theorem excess_nil (pairing : Pairing) : pairing.excess [] = 0 := rfl

@[simp] theorem excess_cons (pairing : Pairing) (token : Token) (rest : List Token) :
    pairing.excess (token :: rest) = pairing.change token + pairing.excess rest := by
  simp [excess]

@[simp] theorem excess_append (pairing : Pairing) (first second : List Token) :
    pairing.excess (first ++ second) = pairing.excess first + pairing.excess second := by
  simp [excess]

theorem forall_iff {property : Pairing → Prop} :
    (∀ pairing, property pairing) ↔
      property .parentheses ∧ property .chains ∧ property .conditions ∧
        property (.loops .range) ∧ property (.loops .keys) ∧ property (.loops .items) := by
  constructor
  · intro hall
    exact ⟨hall _, hall _, hall _, hall _, hall _, hall _⟩
  · rintro ⟨hparentheses, hchains, hconditions, hrange, hkeys, hitems⟩ pairing
    cases pairing with
    | loops family => cases family <;> assumption
    | _ => assumption

end Pairing

namespace Tally

/-- Openings less ends among the tokens that have been counted. -/
def excess (tally : Tally) : Pairing → Int
  | .parentheses => tally.parentheses
  | .chains => tally.ifs - tally.endIfs
  | .conditions => tally.ifs + tally.elseIfs - tally.thens
  | .loops family => tally.loops family

theorem excess_countParenthesis (tally : Tally) (kind : TokenKind) (pairing : Pairing) :
    (tally.countParenthesis kind).excess pairing = tally.excess pairing + pairing.ofKind kind := by
  cases pairing with
  | loops family =>
      cases family <;> cases kind <;> simp [countParenthesis, excess, loops, Pairing.ofKind]
  | _ => cases kind <;> simp [countParenthesis, excess, Pairing.ofKind, Int.sub_eq_add_neg]

theorem excess_countLoop (tally : Tally) (family : LoopFamily) (number : Int) (pairing : Pairing) :
    (tally.countLoop family number).excess pairing =
      tally.excess pairing + if pairing = .loops family then number else 0 := by
  cases pairing with
  | loops other => cases family <;> cases other <;> simp [countLoop, excess, loops]
  | _ => cases family <;> simp [countLoop, excess]

theorem excess_countBranch (tally : Tally) (part : Branch) (pairing : Pairing) :
    (tally.countBranch part).excess pairing =
      tally.excess pairing + pairing.ofKeyword (.branch part) := by
  cases pairing with
  | loops family =>
      cases family <;> cases part <;> simp [countBranch, excess, loops, Pairing.ofKeyword]
  | _ => cases part <;> simp [countBranch, excess, Pairing.ofKeyword] <;> omega

theorem excess_countKeyword (tally : Tally) (keyword : Keyword) (pairing : Pairing) :
    (tally.countKeyword keyword).excess pairing =
      tally.excess pairing + pairing.ofKeyword keyword := by
  cases keyword with
  | branch part => exact tally.excess_countBranch part pairing
  | loop family =>
      rw [countKeyword, excess_countLoop]
      cases pairing <;> simp [Pairing.ofKeyword, eq_comm]
  | endLoop family =>
      rw [countKeyword, excess_countLoop]
      cases pairing <;> simp [Pairing.ofKeyword, eq_comm]
  | _ => cases pairing <;> simp [countKeyword, Pairing.ofKeyword]

theorem excess_count (tally : Tally) (token : Token) (pairing : Pairing) :
    (tally.count token).excess pairing = tally.excess pairing + pairing.change token := by
  rw [count, Pairing.change]
  cases Keyword.ofToken? token with
  | none => simp [excess_countParenthesis]
  | some keyword => simp [excess_countKeyword, excess_countParenthesis, Int.add_assoc]

/-- No balance is broken when nothing was opened more often than closed, or the reverse. -/
theorem imbalance?_eq_none_iff (tally : Tally) :
    tally.imbalance? = none ↔ ∀ pairing, tally.excess pairing = 0 := by
  rw [imbalance?, Pairing.forall_iff]
  simp only [excess]
  split_ifs <;> simp <;> omega

end Tally

/-! ## The order of branch keywords -/

/-- The last branch keyword after a token, if the token may follow the one before it. -/
def branchAfter? (last : Branch) (token : Token) : Option Branch :=
  match token.branch? with
  | some part => if last ∈ predecessors part then some part else none
  | none => some last

/-- The last branch keyword after some tokens, if each may follow the one before it. -/
def lastBranch? (last : Branch) (tokens : List Token) : Option Branch :=
  tokens.foldlM branchAfter? last

@[simp] theorem lastBranch?_nil (last : Branch) : lastBranch? last [] = some last := rfl

@[simp] theorem lastBranch?_cons (last : Branch) (token : Token) (rest : List Token) :
    lastBranch? last (token :: rest) =
      (branchAfter? last token).bind fun next => lastBranch? next rest := rfl

@[simp] theorem lastBranch?_append (last : Branch) (first second : List Token) :
    lastBranch? last (first ++ second) =
      (lastBranch? last first).bind fun next => lastBranch? next second := by
  rw [lastBranch?, List.foldlM_append]
  rfl

theorem branchAfter?_eq_some {last part : Branch} {token : Token}
    (htoken : token.branch? = some part) (hlast : last ∈ predecessors part) :
    branchAfter? last token = some part := by
  simp [branchAfter?, htoken, hlast]

/-- Tokens that shape no block leave the last branch keyword as it is. -/
theorem lastBranch?_inert {tokens : List Token} (hinert : ∀ token ∈ tokens, token.Inert)
    (last : Branch) : lastBranch? last tokens = some last := by
  induction tokens with
  | nil => rfl
  | cons token rest ih =>
      rw [List.forall_mem_cons] at hinert
      simp [branchAfter?, hinert.1.branch?, ih hinert.2]

/-! ## Accepted tokens -/

variable {S : Type} [Store S]

/-- A command that is no keyword is in the store. -/
def IsKnown (store : S) (token : Token) : Prop :=
  Keyword.ofToken? token = none → token.isCommand = true → isStored store token = true

theorem isStored_of_call {store : S} {command : Token} (hkind : command.kind = .call)
    {key : String} (hkey : key ∈ Store.keys store)
    (hstart : (Store.afterStart? command.text key).isSome) : isStored store command = true := by
  have hmem : key ∈ (Store.keys store).filter fun key =>
      (Store.afterStart? command.text key).isSome := List.mem_filter.mpr ⟨hkey, hstart⟩
  rw [isStored, if_pos hkind, Store.entriesFrom, List.isEmpty_map,
    List.isEmpty_eq_false_iff.mpr (List.ne_nil_of_mem hmem), Bool.not_false]

theorem isStored_of_word {store : S} {command : Token} (hkind : command.kind = .word)
    (hvalue : Store.get store command.text ≠ "") : isStored store command = true := by
  rw [isStored, if_neg (by simp [hkind]), Bool.not_eq_true', String.isEmpty_eq_false_iff]
  exact hvalue

theorem Tally.last_count (tally : Tally) (token : Token) :
    (tally.count token).last = token.branch?.getD tally.last := by
  have hlast : (tally.countParenthesis token.kind).last = tally.last := by
    cases token.kind <;> rfl
  rw [count, Token.branch?]
  cases Keyword.ofToken? token with
  | none => exact hlast
  | some keyword =>
      cases keyword with
      | branch part => cases part <;> rfl
      | loop family => cases family <;> exact hlast
      | endLoop family => cases family <;> exact hlast
      | _ => exact hlast

theorem branchAfter?_eq (tally : Tally) (token : Token)
    (hbranch : (branchAfter? tally.last token).isSome) :
    branchAfter? tally.last token = some (tally.count token).last := by
  rw [tally.last_count]
  rw [branchAfter?] at hbranch ⊢
  cases htoken : token.branch? with
  | none => rfl
  | some part =>
      by_cases hpart : tally.last ∈ predecessors part <;> simp_all

/-- A token has no flaw when it is known and may follow the last branch keyword. -/
theorem flaw?_eq_none_iff (store : S) (index : Nat) (tally : Tally) (token : Token) :
    flaw? store index tally token = none ↔
      IsKnown store token ∧ (branchAfter? tally.last token).isSome := by
  rw [flaw?, branchAfter?, IsKnown, Token.branch?]
  cases Keyword.ofToken? token with
  | none => simp
  | some keyword => cases keyword <;> simp [Tally.admits]

theorem tokensFrom_eq_ok_iff (store : S) (index : Nat) (tally : Tally) (tokens : List Token) :
    tokensFrom store index tally tokens = .ok () ↔
      (∀ token ∈ tokens, IsKnown store token) ∧ (lastBranch? tally.last tokens).isSome ∧
        ∀ pairing : Pairing, tally.excess pairing + pairing.excess tokens = 0 := by
  induction tokens generalizing index tally with
  | nil =>
      simp only [Pairing.excess_nil, Int.add_zero]
      rw [tokensFrom, ← Tally.imbalance?_eq_none_iff]
      cases tally.imbalance? <;> simp
  | cons token rest ih =>
      rw [tokensFrom, List.forall_mem_cons, lastBranch?_cons]
      cases hflaw : flaw? store index tally token with
      | none =>
          obtain ⟨hknown, hbranch⟩ := (flaw?_eq_none_iff store index tally token).mp hflaw
          simp [ih, hknown, branchAfter?_eq tally token hbranch, Tally.excess_count, Int.add_assoc]
      | some kind =>
          refine iff_of_false nofun ?_
          rintro ⟨⟨hknown, -⟩, hbranch, -⟩
          have hnone := (flaw?_eq_none_iff store index tally token).mpr
            ⟨hknown, Option.isSome_of_isSome_bind hbranch⟩
          rw [hflaw] at hnone
          cases hnone

/-- What a check accepts, without the scan. -/
theorem tokens_eq_ok_iff (store : S) (all : List Token) :
    tokens store all = .ok () ↔
      (∀ token ∈ all, IsKnown store token) ∧ (lastBranch? .endIf all).isSome ∧
        ∀ pairing : Pairing, pairing.excess all = 0 := by
  have hstart (pairing : Pairing) : Tally.excess {} pairing = 0 := by
    cases pairing with
    | loops family => cases family <;> rfl
    | _ => rfl
  rw [tokens, tokensFrom_eq_ok_iff]
  simp only [hstart, Int.zero_add]

/-- Blank text is accepted as the text without tokens that it is. -/
theorem script_eq_nil_iff (store : S) (text : String) :
    script store text = [] ↔ tokens store (Token.scan text) = .ok () := by
  rw [script]
  split
  next hblank =>
    rw [Token.isBlank_iff_looks, List.map_eq_nil_iff] at hblank
    simp [hblank, tokens_eq_ok_iff]
  next =>
    cases tokens store (Token.scan text) <;> simp

end AtScript.Check

namespace AtScript

open Check Grammar

/-! ## Well-formed programs are balanced -/

namespace Token

variable {token opener close : Token} (pairing : Pairing)

/-- A token that shapes no block opens and closes at most a parenthesis. -/
theorem Inert.change_eq (hinert : token.Inert) :
    pairing.change token = pairing.ofKind token.kind := by
  rw [Pairing.change]
  cases hkeyword : Keyword.ofToken? token with
  | none => simp
  | some keyword =>
      have hshapes := hinert keyword hkeyword
      cases keyword <;> cases pairing <;> simp_all [Pairing.ofKeyword, Keyword.shapesBlock]

theorem change_eq_zero_of_comma (htoken : token.kind = .comma) : pairing.change token = 0 := by
  rw [(inert_of_ofToken?_eq_none (ofToken?_eq_none_of_comma htoken)).change_eq, htoken]
  cases pairing <;> rfl

theorem change_eq_zero_of_isLiteral (htoken : token.isLiteral = true) :
    pairing.change token = 0 := by
  rw [(inert_of_ofToken?_eq_none (ofToken?_eq_none_of_isLiteral htoken)).change_eq]
  obtain ⟨kind, text, span⟩ := token
  cases kind <;> cases pairing <;> simp_all [isLiteral, Pairing.ofKind]

theorem change_eq_of_close (hclose : close.kind = .close) :
    pairing.change close = pairing.ofKind .close := by
  rw [(inert_of_ofToken?_eq_none (ofToken?_eq_none_of_close hclose)).change_eq, hclose]

theorem change_eq_zero_of_word (hkind : token.kind = .word) (hinert : token.Inert) :
    pairing.change token = 0 := by
  rw [hinert.change_eq, hkind]
  cases pairing <;> rfl

theorem Opener.change_add_close (hopener : opener.Opener) (hclose : close.kind = .close) :
    pairing.change opener + pairing.change close = 0 := by
  rw [hopener.inert.change_eq, hopener.kind, change_eq_of_close pairing hclose]
  cases pairing <;> rfl

theorem change_of_isStructural {keyword : Keyword} (htoken : Keyword.ofToken? token = some keyword)
    (hkeyword : keyword.isStructural = true) :
    pairing.change token = pairing.ofKeyword keyword := by
  rw [Pairing.change, htoken, Keyword.kind_of_isStructural htoken hkeyword]
  cases pairing <;> simp [Pairing.ofKind]

theorem change_of_branch? {part : Branch} (htoken : token.branch? = some part) :
    pairing.change token = pairing.ofKeyword (.branch part) :=
  change_of_isStructural pairing ((branch?_eq_some_iff token part).mp htoken) rfl

theorem change_of_loop {family : LoopFamily}
    (htoken : Keyword.ofToken? token = some (.loop family)) :
    pairing.change token = pairing.ofKind .call + pairing.ofKeyword (.loop family) := by
  rw [Pairing.change, htoken, Keyword.kind_of_loop htoken, Option.elim_some]

end Token

namespace Grammar

variable {tokens : List Token} {shape : Shape}

theorem Arguments.excess_eq_zero (harguments : Arguments tokens) (pairing : Pairing) :
    pairing.excess tokens = 0 := by
  induction harguments with
  | nil => rfl
  | comma htoken _ ih => simp [Token.change_eq_zero_of_comma pairing htoken, ih]
  | literal htoken _ ih => simp [Token.change_eq_zero_of_isLiteral pairing htoken, ih]
  | word htoken _ ih =>
      simp [Token.change_eq_zero_of_word pairing htoken.kind htoken.inert, ih]
  | call hopener _ hclose _ ihinner ihrest =>
      have hpair := hopener.change_add_close pairing hclose
      simp only [Pairing.excess_cons, Pairing.excess_append, ihinner, ihrest]
      omega

theorem Operand.excess_eq_zero (hpiece : Operand tokens) (pairing : Pairing) :
    pairing.excess tokens = 0 := by
  induction hpiece with
  | atom hpiece => exact hpiece.arguments.excess_eq_zero pairing
  | negation htoken _ ih =>
      rw [Pairing.excess_cons, ih, Token.change_of_isStructural pairing htoken rfl]
      cases pairing <;> rfl

theorem Terms.excess_eq_zero (hterms : Terms tokens) (pairing : Pairing) :
    pairing.excess tokens = 0 := by
  induction hterms with
  | last hpiece => exact hpiece.excess_eq_zero pairing
  | join hpiece htoken _ ih =>
      rw [Pairing.excess_append, Pairing.excess_cons, hpiece.excess_eq_zero pairing, ih]
      rcases htoken with htoken | htoken <;>
        rw [Token.change_of_isStructural pairing htoken rfl] <;> cases pairing <;> rfl

theorem Condition.excess_eq_zero (hcondition : Condition tokens) (pairing : Pairing) :
    pairing.excess tokens = 0 := by
  rcases hcondition with rfl | hterms
  · rfl
  · exact hterms.excess_eq_zero pairing

/-- What a well-formed part opens, less what it closes. The rest of a chain closes the chain. -/
def Shape.excess : Shape → Pairing → Int
  | .chainRest, .chains => -1
  | _, _ => 0

theorem WellFormed.excess_eq (hwell : WellFormed shape tokens) (pairing : Pairing) :
    pairing.excess tokens = shape.excess pairing := by
  induction hwell with
  | nil => cases pairing <;> rfl
  | atom hpiece _ ih =>
      rw [Pairing.excess_append, hpiece.arguments.excess_eq_zero, ih, Int.zero_add]
  | loop _ hheader harguments hclose _ hlast _ ihbody ihrest =>
      simp only [Pairing.excess_cons, Pairing.excess_append, ihbody, ihrest,
        harguments.excess_eq_zero, Token.change_of_loop pairing hheader,
        Token.change_eq_of_close pairing hclose, Token.change_of_isStructural pairing hlast rfl]
      cases pairing with
      | loops other => grind [Pairing.ofKind, Pairing.ofKeyword, Shape.excess]
      | _ => rfl
  | chain hif hcondition hthen _ _ _ ihbody ihchain ihrest =>
      simp only [Pairing.excess_cons, Pairing.excess_append, ihbody, ihchain, ihrest,
        hcondition.excess_eq_zero, Token.change_of_branch? pairing hif,
        Token.change_of_branch? pairing hthen]
      cases pairing <;> rfl
  | elseIf helseIf hcondition hthen _ _ ihbody ihchain =>
      simp only [Pairing.excess_cons, Pairing.excess_append, ihbody, ihchain,
        hcondition.excess_eq_zero, Token.change_of_branch? pairing helseIf,
        Token.change_of_branch? pairing hthen]
      cases pairing <;> rfl
  | elseWord helse _ hlast ihbody =>
      simp only [Pairing.excess_cons, Pairing.excess_append, ihbody,
        Token.change_of_branch? pairing helse, Token.change_of_branch? pairing hlast]
      cases pairing <;> rfl
  | endIf hlast =>
      rw [Pairing.excess_cons, Token.change_of_branch? pairing hlast]
      cases pairing <;> rfl

/-- The branch keywords after which a well-formed part may stand. -/
def Shape.starts : Shape → List Branch
  | .program => predecessors .ifWord
  | .chainRest => predecessors .elseIf

/-- The branch keywords that may be the last one after a well-formed part. -/
def Shape.ends : Shape → Branch → List Branch
  | .program, last => [last, .endIf]
  | .chainRest, _ => [.endIf]

theorem lastBranch?_clause {token thenToken : Token} {part : Branch} {condition : List Token}
    (htoken : token.branch? = some part) (hpart : part ∈ predecessors .thenWord)
    (hcondition : Condition condition) (hthen : thenToken.branch? = some .thenWord)
    {last : Branch} (hlast : last ∈ predecessors part) (rest : List Token) :
    lastBranch? last (token :: (condition ++ thenToken :: rest)) = lastBranch? .thenWord rest := by
  simp [branchAfter?_eq_some htoken hlast, lastBranch?_inert hcondition.inert,
    branchAfter?_eq_some hthen hpart]

/-- The branch keywords of a well-formed part follow one another as they may, from whichever
keyword before it. A chain inside a body ends with an ENDIF, and all that may follow the THEN of the
chain around it may follow that too. -/
theorem WellFormed.exists_lastBranch? (hwell : WellFormed shape tokens) (last : Branch)
    (hlast : last ∈ shape.starts) :
    ∃ next ∈ shape.ends last, lastBranch? last tokens = some next := by
  induction hwell generalizing last with
  | nil => exact ⟨last, List.mem_cons_self, rfl⟩
  | atom hpiece _ ih =>
      rw [lastBranch?_append, lastBranch?_inert hpiece.arguments.inert]
      exact ih last hlast
  | @loop _ header close final arguments body rest _ hheader harguments hclose _ hfinal _ ihbody
      ihrest =>
      have hhead : ∀ start, lastBranch? start (header :: (arguments ++ [close])) = some start := by
        intro start
        simp [branchAfter?, Token.branch?, hheader, Token.ofToken?_eq_none_of_close hclose,
          lastBranch?_inert harguments.inert]
      have hend : ∀ start, branchAfter? start final = some start := by
        simp [branchAfter?, Token.branch?, hfinal]
      obtain ⟨inner, hinner, hbody⟩ := ihbody last hlast
      have hstart : inner ∈ Shape.program.starts := by
        rcases List.mem_pair.mp hinner with rfl | rfl
        · exact hlast
        · decide
      obtain ⟨next, hnext, hrest⟩ := ihrest inner hstart
      refine ⟨next, ?_, ?_⟩
      · rcases List.mem_pair.mp hnext with rfl | rfl
        · exact hinner
        · simp [Shape.ends]
      · have hwhole : header :: (arguments ++ close :: (body ++ final :: rest)) =
            (header :: (arguments ++ [close])) ++ (body ++ final :: rest) := by simp
        rw [hwhole]
        simp only [lastBranch?_append, lastBranch?_cons, hhead, hbody, hend, hrest,
          Option.bind_some]
  | chain hif hcondition hthen _ _ _ ihbody ihchain ihrest =>
      -- What may be last after the body is just what the rest of the chain may follow.
      obtain ⟨inner, hinner, hbody⟩ := ihbody .thenWord (by decide)
      obtain ⟨close, hclose, hchain⟩ := ihchain inner hinner
      obtain rfl := List.mem_singleton.mp hclose
      obtain ⟨next, hnext, hrest⟩ := ihrest .endIf (by decide)
      refine ⟨next, ?_, ?_⟩
      · rcases List.mem_pair.mp hnext with rfl | rfl <;> simp [Shape.ends]
      · rw [lastBranch?_clause hif (by decide) hcondition hthen hlast]
        simp [hbody, hchain, hrest]
  | elseIf helseIf hcondition hthen _ _ ihbody ihchain =>
      obtain ⟨inner, hinner, hbody⟩ := ihbody .thenWord (by decide)
      obtain ⟨close, hclose, hchain⟩ := ihchain inner hinner
      refine ⟨close, hclose, ?_⟩
      rw [lastBranch?_clause helseIf (by decide) hcondition hthen hlast]
      simp [hbody, hchain]
  | elseWord helse _ hend ihbody =>
      obtain ⟨inner, hinner, hbody⟩ := ihbody .elseWord (by decide)
      have hinner : inner ∈ predecessors .endIf := by
        rcases List.mem_pair.mp hinner with rfl | rfl <;> decide
      refine ⟨.endIf, List.mem_cons_self, ?_⟩
      simp [branchAfter?_eq_some helse hlast, hbody, branchAfter?_eq_some hend hinner]
  | endIf hend =>
      have hlast : last ∈ predecessors .endIf := by
        rcases List.mem_pair.mp hlast with rfl | rfl <;> decide
      refine ⟨.endIf, List.mem_cons_self, ?_⟩
      simp [branchAfter?_eq_some hend hlast]

end Grammar

/-- A well-formed program is accepted when the store has its commands: a call that is no keyword is
the start of a key, and a bare word that is none has a value. -/
theorem Check.accepts_wellFormed {S : Type} [Store S] {store : S} {tokens : List Token}
    (hwell : WellFormed .program tokens)
    (hcalls : ∀ token ∈ tokens, token.kind = .call → token.hasAt = true →
      Keyword.ofToken? token = none →
      ∃ key ∈ Store.keys store, (Store.afterStart? token.text key).isSome)
    (hwords : ∀ token ∈ tokens, token.kind = .word → token.hasAt = true →
      Keyword.ofToken? token = none → Store.get store token.text ≠ "") :
    Check.tokens store tokens = .ok () := by
  rw [tokens_eq_ok_iff]
  refine ⟨fun token htoken hkeyword hcommand => ?_, ?_, fun pairing => ?_⟩
  · rw [Token.isCommand] at hcommand
    split at hcommand
    next hkind =>
      obtain ⟨key, hkey, hstart⟩ := hcalls token htoken hkind hcommand hkeyword
      exact isStored_of_call hkind hkey hstart
    next hkind => exact isStored_of_word hkind (hwords token htoken hkind hcommand hkeyword)
    next => cases hcommand
  · obtain ⟨next, -, hnext⟩ := hwell.exists_lastBranch? .endIf (by decide)
    rw [hnext, Option.isSome_some]
  · rw [hwell.excess_eq]
    cases pairing <;> rfl

/-- A chain inside a branch of another one, and two commands of the store. -/
theorem Check.accepts_nested_chains :
    let store := (Dictionary.empty.insert "@greet(name)" "@write($name)").insert "@bye" "@nl"
    let script :=
      "@if @greet(x) @then @bye @elseif @not y @then @if z @then @else @endif @endif"
    WellFormed .program (Token.scan script) ∧ Check.tokens store (Token.scan script) = .ok () := by
  intro store script
  let inner : List Token :=
    ⟨.word, "@if", ⟨46, 3⟩⟩ :: ([⟨.word, "z", ⟨50, 1⟩⟩] ++ ⟨.word, "@then", ⟨52, 5⟩⟩ ::
      ([] ++ ((⟨.word, "@else", ⟨58, 5⟩⟩ :: ([] ++ [⟨.word, "@endif", ⟨64, 6⟩⟩])) ++ [])))
  have hscan : Token.scan script =
      ⟨.word, "@if", ⟨0, 3⟩⟩ ::
        ((⟨.call, "@greet(", ⟨4, 7⟩⟩ :: ([⟨.word, "x", ⟨11, 1⟩⟩] ++ [⟨.close, ")", ⟨12, 1⟩⟩])) ++
          ⟨.word, "@then", ⟨14, 5⟩⟩ :: (([⟨.word, "@bye", ⟨20, 4⟩⟩] ++ []) ++
        ((⟨.word, "@elseif", ⟨25, 7⟩⟩ ::
          ((⟨.word, "@not", ⟨33, 4⟩⟩ :: [⟨.word, "y", ⟨38, 1⟩⟩]) ++ ⟨.word, "@then", ⟨40, 5⟩⟩ ::
            (inner ++ [⟨.word, "@endif", ⟨71, 6⟩⟩]))) ++ []))) := by
    decide +kernel
  have hgreet : Token.Opener ⟨.call, "@greet(", ⟨4, 7⟩⟩ := by
    have hnone : Keyword.ofToken? ⟨.call, "@greet(", ⟨4, 7⟩⟩ = none := by decide +kernel
    exact ⟨rfl, by simp [hnone]⟩
  have hbye : Token.BareWord ⟨.word, "@bye", ⟨20, 4⟩⟩ := by
    have hnone : Keyword.ofToken? ⟨.word, "@bye", ⟨20, 4⟩⟩ = none := by decide +kernel
    exact ⟨rfl, by decide +kernel, by simp [hnone]⟩
  have hinner : WellFormed .program inner :=
    .chain (by decide +kernel) (.inr (.last (.atom (.literal (by decide +kernel)))))
      (by decide +kernel) .nil (.elseWord (by decide +kernel) .nil (by decide +kernel)) .nil
  have hwell : WellFormed .program (Token.scan script) := by
    rw [hscan]
    exact .chain (by decide +kernel)
      (.inr (.last (.atom (.call hgreet (.literal (by decide +kernel) .nil) rfl))))
      (by decide +kernel) (.atom (.word hbye) .nil)
      (.elseIf (by decide +kernel)
        (.inr (.last (.negation (by decide +kernel) (.atom (.literal (by decide +kernel))))))
        (by decide +kernel) hinner (.endIf (by decide +kernel))) .nil
  exact ⟨hwell, Check.accepts_wellFormed hwell (by decide +kernel) (by decide +kernel)⟩

end AtScript
