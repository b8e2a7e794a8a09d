import AtScript.Proofs.Branches

/-! # Well-formed programs

The grammar of programs over flat tokens. A program is made of literals, calls, bare words, loops
and chains of branches. Its blocks are closed within it, so every search for the end of a block
stops inside the construct that it started in.
-/

namespace AtScript

open Nesting

/-! ## The grammar -/

namespace Token

/-- A command without parentheses that is no part of a block or a condition. -/
structure BareWord (token : Token) : Prop where
  kind : token.kind = .word
  hasAt : token.hasAt = true
  keyword : ∀ keyword, Keyword.ofToken? token = some keyword → keyword.isStructural = false

/-- The start of a call that opens no loop and is no part of a block or a condition. -/
structure Opener (token : Token) : Prop where
  kind : token.kind = .call
  keyword : ∀ keyword, Keyword.ofToken? token = some keyword → keyword.isControl = false

end Token

namespace Grammar

/-- What may stand between the parentheses of a call. -/
inductive Arguments : List Token → Prop
  | nil : Arguments []
  | comma {token : Token} {rest : List Token} (htoken : token.kind = .comma)
      (hrest : Arguments rest) : Arguments (token :: rest)
  | literal {token : Token} {rest : List Token} (htoken : token.isLiteral = true)
      (hrest : Arguments rest) : Arguments (token :: rest)
  | word {token : Token} {rest : List Token} (htoken : token.BareWord)
      (hrest : Arguments rest) : Arguments (token :: rest)
  | call {opener close : Token} {inner rest : List Token} (hopener : opener.Opener)
      (hinner : Arguments inner) (hclose : close.kind = .close) (hrest : Arguments rest) :
      Arguments (opener :: (inner ++ close :: rest))

/-- A literal, a bare word or a call. -/
inductive Atom : List Token → Prop
  | literal {token : Token} (htoken : token.isLiteral = true) : Atom [token]
  | word {token : Token} (htoken : token.BareWord) : Atom [token]
  | call {opener close : Token} {inner : List Token} (hopener : opener.Opener)
      (hinner : Arguments inner) (hclose : close.kind = .close) :
      Atom (opener :: (inner ++ [close]))

/-- An atom after any number of negations. -/
inductive Operand : List Token → Prop
  | atom {piece : List Token} (hpiece : Atom piece) : Operand piece
  | negation {token : Token} {piece : List Token}
      (htoken : Keyword.ofToken? token = some (.connector .not)) (hpiece : Operand piece) :
      Operand (token :: piece)

/-- Operands that are joined by AND and OR. -/
inductive Terms : List Token → Prop
  | last {piece : List Token} (hpiece : Operand piece) : Terms piece
  | join {token : Token} {piece rest : List Token} (hpiece : Operand piece)
      (htoken : Keyword.ofToken? token = some (.connector .and) ∨
        Keyword.ofToken? token = some (.connector .or))
      (hrest : Terms rest) : Terms (piece ++ token :: rest)

/-- A condition, which may be empty. -/
def Condition (tokens : List Token) : Prop :=
  tokens = [] ∨ Terms tokens

/-- A whole program, or the rest of a chain of branches after one of its bodies. -/
inductive Shape where
  | program
  | chainRest

/-- Well-formed tokens. -/
inductive WellFormed : Shape → List Token → Prop
  | nil : WellFormed .program []
  | atom {piece rest : List Token} (hpiece : Atom piece) (hrest : WellFormed .program rest) :
      WellFormed .program (piece ++ rest)
  | loop {family : LoopFamily} {header close last : Token} {arguments body rest : List Token}
      (hkind : header.kind = .call) (hheader : Keyword.ofToken? header = some (.loop family))
      (harguments : Arguments arguments) (hclose : close.kind = .close)
      (hbody : WellFormed .program body) (hlast : Keyword.ofToken? last = some (.endLoop family))
      (hrest : WellFormed .program rest) :
      WellFormed .program (header :: (arguments ++ close :: (body ++ last :: rest)))
  | chain {ifToken thenToken : Token} {condition body chainRest rest : List Token}
      (hif : ifToken.branch? = some .ifWord) (hcondition : Condition condition)
      (hthen : thenToken.branch? = some .thenWord) (hbody : WellFormed .program body)
      (hchain : WellFormed .chainRest chainRest) (hrest : WellFormed .program rest) :
      WellFormed .program (ifToken :: (condition ++ thenToken :: (body ++ (chainRest ++ rest))))
  | elseIf {elseIfToken thenToken : Token} {condition body chainRest : List Token}
      (helseIf : elseIfToken.branch? = some .elseIf) (hcondition : Condition condition)
      (hthen : thenToken.branch? = some .thenWord) (hbody : WellFormed .program body)
      (hchain : WellFormed .chainRest chainRest) :
      WellFormed .chainRest (elseIfToken :: (condition ++ thenToken :: (body ++ chainRest)))
  | elseWord {elseToken last : Token} {body : List Token}
      (helse : elseToken.branch? = some .elseWord) (hbody : WellFormed .program body)
      (hlast : last.branch? = some .endIf) :
      WellFormed .chainRest (elseToken :: (body ++ [last]))
  | endIf {last : Token} (hlast : last.branch? = some .endIf) : WellFormed .chainRest [last]

end Grammar

/-! ## Tokens that shape no block -/

/-- Whether a keyword opens, divides or closes a block. -/
def Keyword.shapesBlock : Keyword → Bool
  | .branch _ | .loop _ | .endLoop _ => true
  | _ => false

/-- A token that opens, divides and closes nothing. -/
def Token.Inert (token : Token) : Prop :=
  ∀ keyword, Keyword.ofToken? token = some keyword → keyword.shapesBlock = false

theorem Keyword.shapesBlock_of_isControl {keyword : Keyword}
    (hcontrol : keyword.isControl = false) : keyword.shapesBlock = false := by
  cases keyword <;> simp_all [shapesBlock, isControl, isStructural]

/-- No loop is opened by a bare word. -/
theorem Keyword.kind_of_loop {token : Token} {family : LoopFamily}
    (htoken : ofToken? token = some (.loop family)) : token.kind = .call := by
  have hword : ∀ entry ∈ byWord, entry.2 ≠ .loop family := by
    cases family <;> decide +kernel
  rw [ofToken?] at htoken
  split at htoken
  · split at htoken
    next hkind => exact hkind
    next =>
      obtain ⟨before, after, hentries, -⟩ := List.lookup_eq_some_iff.mp htoken
      exact absurd rfl (hword (Text.foldCase token.text, .loop family) (by simp [hentries]))
    next => cases htoken
  · cases htoken

/-- Nothing that only shapes the flow of control is called. -/
theorem Keyword.kind_of_isStructural {token : Token} {keyword : Keyword}
    (htoken : ofToken? token = some keyword) (hkeyword : keyword.isStructural = true) :
    token.kind = .word := by
  have hcall : ∀ entry ∈ byCall, entry.2.isStructural = false := by decide +kernel
  rw [ofToken?] at htoken
  split at htoken
  · split at htoken
    next =>
      obtain ⟨before, after, hentries, -⟩ := List.lookup_eq_some_iff.mp htoken
      have hplain := hcall (Text.foldCase token.text, keyword) (by simp [hentries])
      exact absurd hkeyword (by simp [hplain])
    next hkind => exact hkind
    next => cases htoken
  · cases htoken

namespace Token

theorem BareWord.isControl {token : Token} (hword : token.BareWord) {keyword : Keyword}
    (htoken : Keyword.ofToken? token = some keyword) : keyword.isControl = false := by
  have hstructural := hword.keyword keyword htoken
  cases keyword with
  | loop family => cases hword.kind.symm.trans (Keyword.kind_of_loop htoken)
  | _ => exact hstructural

theorem Inert.of_isControl {token : Token} (htoken : ∀ keyword,
    Keyword.ofToken? token = some keyword → keyword.isControl = false) : token.Inert :=
  fun keyword hkeyword => Keyword.shapesBlock_of_isControl (htoken keyword hkeyword)

theorem BareWord.inert {token : Token} (hword : token.BareWord) : token.Inert :=
  .of_isControl fun _ => hword.isControl

theorem Opener.inert {token : Token} (hopener : token.Opener) : token.Inert :=
  .of_isControl hopener.keyword

/-- A token that is neither a call nor a command spells no keyword. -/
theorem inert_of_ofToken?_eq_none {token : Token} (htoken : Keyword.ofToken? token = none) :
    token.Inert := by
  intro keyword hkeyword
  rw [htoken] at hkeyword
  cases hkeyword

theorem ofToken?_eq_none_of_isLiteral {token : Token} (htoken : token.isLiteral = true) :
    Keyword.ofToken? token = none := by
  obtain ⟨kind, text, span⟩ := token
  cases kind <;> simp_all [Token.isLiteral, Keyword.ofToken?]

theorem ofToken?_eq_none_of_comma {token : Token} (htoken : token.kind = .comma) :
    Keyword.ofToken? token = none := by
  simp [Keyword.ofToken?, htoken]

theorem ofToken?_eq_none_of_close {token : Token} (htoken : token.kind = .close) :
    Keyword.ofToken? token = none := by
  simp [Keyword.ofToken?, htoken]

theorem Inert.branch? {token : Token} (hinert : token.Inert) : token.branch? = none := by
  cases hbranch : token.branch? with
  | none => rfl
  | some part => cases hinert _ ((branch?_eq_some_iff token part).mp hbranch)

end Token

namespace Grammar

theorem Arguments.inert {tokens : List Token} (harguments : Arguments tokens) :
    ∀ token ∈ tokens, token.Inert := by
  induction harguments with
  | nil => exact nofun
  | comma htoken _ ih =>
      exact List.forall_mem_cons.mpr
        ⟨Token.inert_of_ofToken?_eq_none (Token.ofToken?_eq_none_of_comma htoken), ih⟩
  | literal htoken _ ih =>
      exact List.forall_mem_cons.mpr
        ⟨Token.inert_of_ofToken?_eq_none (Token.ofToken?_eq_none_of_isLiteral htoken), ih⟩
  | word htoken _ ih => exact List.forall_mem_cons.mpr ⟨htoken.inert, ih⟩
  | call hopener _ hclose _ ihinner ihrest =>
      have hclose := Token.inert_of_ofToken?_eq_none (Token.ofToken?_eq_none_of_close hclose)
      refine List.forall_mem_cons.mpr ⟨hopener.inert, ?_⟩
      exact List.forall_mem_append.mpr ⟨ihinner, List.forall_mem_cons.mpr ⟨hclose, ihrest⟩⟩

/-- An atom is an argument by itself. -/
theorem Atom.arguments {piece : List Token} (hpiece : Atom piece) : Arguments piece := by
  cases hpiece with
  | literal htoken => exact .literal htoken .nil
  | word htoken => exact .word htoken .nil
  | call hopener hinner hclose => exact .call hopener hinner hclose .nil

theorem Operand.inert {piece : List Token} (hpiece : Operand piece) :
    ∀ token ∈ piece, token.Inert := by
  induction hpiece with
  | atom hpiece => exact hpiece.arguments.inert
  | negation htoken _ ih =>
      refine List.forall_mem_cons.mpr ⟨fun keyword hkeyword => ?_, ih⟩
      cases htoken.symm.trans hkeyword
      rfl

theorem Terms.inert {tokens : List Token} (hterms : Terms tokens) :
    ∀ token ∈ tokens, token.Inert := by
  induction hterms with
  | last hpiece => exact hpiece.inert
  | join hpiece htoken _ ih =>
      refine List.forall_mem_append.mpr ⟨hpiece.inert, List.forall_mem_cons.mpr ⟨?_, ih⟩⟩
      intro keyword hkeyword
      rcases htoken with htoken | htoken <;>
      · cases htoken.symm.trans hkeyword
        rfl

theorem Condition.inert {tokens : List Token} (hcondition : Condition tokens) :
    ∀ token ∈ tokens, token.Inert := by
  rcases hcondition with rfl | hterms
  · exact nofun
  · exact hterms.inert

end Grammar

/-! ## Blocks are closed -/

/-- Tokens that shape no block are passed over. -/
theorem Nesting.PassedOver.of_inert {opening close : Keyword}
    (hopening : opening.shapesBlock = true) (hclose : close.shapesBlock = true)
    {tokens : List Token} (hinert : ∀ token ∈ tokens, token.Inert) :
    PassedOver opening close tokens := by
  induction tokens with
  | nil => exact .nil
  | cons token rest ih =>
      rw [List.forall_mem_cons] at hinert
      refine .cons (fun hfound => ?_) (fun hfound => ?_) (ih hinert.2)
      · exact absurd (hinert.1 _ hfound) (by simp [hopening])
      · exact absurd (hinert.1 _ hfound) (by simp [hclose])

/-- So are branch keywords in the search for the end of a loop. -/
theorem Nesting.PassedOver.cons_branch {family : LoopFamily} {token : Token} {part : Branch}
    {rest : List Token} (htoken : token.branch? = some part)
    (hrest : PassedOver (.loop family) (.endLoop family) rest) :
    PassedOver (.loop family) (.endLoop family) (token :: rest) := by
  rw [Token.branch?_eq_some_iff] at htoken
  exact .cons (by simp [htoken]) (by simp [htoken]) hrest

namespace Nesting.ChainEnd

variable {closing inner : List Token}

/-- A chain that ends is a balanced block. -/
theorem block (hclosing : ChainEnd closing) {inside : Bool} {first : Token} {rest : List Token}
    (hfirst : first.branch? = some .ifWord) (hinner : BranchBalanced true inner)
    (hrest : BranchBalanced inside rest) :
    BranchBalanced inside (first :: (inner ++ (closing ++ rest))) := by
  cases hclosing with
  | endIf hlast => exact .block hfirst hinner hlast hrest
  | separator htoken hothers hlast =>
      have hwhole := hinner.append (.separator htoken hothers)
      have hblock := BranchBalanced.block hfirst hwhole hlast hrest
      simpa using hblock

/-- A chain that ends also ends after one more clause. -/
theorem cons_clause (hclosing : ChainEnd closing) {token : Token}
    (htoken : token.branch? = some .elseIf) (hinner : BranchBalanced true inner) :
    ChainEnd (token :: (inner ++ closing)) := by
  cases hclosing with
  | endIf hlast => exact .separator (.inl htoken) hinner hlast
  | separator hother hothers hlast =>
      have hwhole := hinner.append (.separator hother hothers)
      have hend := ChainEnd.separator (.inl htoken) hwhole hlast
      simpa using hend

end Nesting.ChainEnd

namespace Grammar

variable {shape : Shape} {tokens : List Token}

/-- The end of a loop is never found in a well-formed part of its body. -/
theorem WellFormed.passedOver (hwell : WellFormed shape tokens) (family : LoopFamily) :
    PassedOver (.loop family) (.endLoop family) tokens := by
  have hinert {piece : List Token} (hpiece : ∀ token ∈ piece, token.Inert) :
      PassedOver (.loop family) (.endLoop family) piece := .of_inert rfl rfl hpiece
  induction hwell with
  | nil => exact .nil
  | atom hpiece _ ih => exact (hinert hpiece.arguments.inert).append ih
  | @loop family' header close last arguments body rest hkind hheader harguments hclose _ hlast _
      ihbody ihrest =>
      have hhead : PassedOver (.loop family) (.endLoop family) (arguments ++ [close]) := by
        refine hinert (List.forall_mem_append.mpr ⟨harguments.inert, ?_⟩)
        rw [List.forall_mem_singleton]
        exact Token.inert_of_ofToken?_eq_none (Token.ofToken?_eq_none_of_close hclose)
      -- A loop of the same family is a block of its own; one of another family is passed over
      -- token by token.
      by_cases hfamily : family' = family
      · subst hfamily
        have hblock := (PassedOver.block (loop_ne_endLoop family') hheader (hhead.append ihbody)
          hlast).append ihrest
        simpa using hblock
      · have htail : PassedOver (.loop family) (.endLoop family) (last :: rest) :=
          .cons (by simp [hlast]) (by simp [hlast, hfamily]) ihrest
        have hflat := hhead.append (ihbody.append htail)
        rw [List.append_assoc, List.singleton_append] at hflat
        exact .cons (by simp [hheader, hfamily]) (by simp [hheader]) hflat
  | chain hif hcondition hthen _ _ _ ihbody ihchain ihrest =>
      exact .cons_branch hif ((hinert hcondition.inert).append
        (.cons_branch hthen (ihbody.append (ihchain.append ihrest))))
  | elseIf helseIf hcondition hthen _ _ ihbody ihchain =>
      exact .cons_branch helseIf ((hinert hcondition.inert).append
        (.cons_branch hthen (ihbody.append ihchain)))
  | elseWord helse _ hlast ihbody =>
      exact .cons_branch helse (ihbody.append (.cons_branch hlast .nil))
  | endIf hlast => exact .cons_branch hlast .nil

/-- What a well-formed part is to the chain around it. -/
def Encloses : Shape → List Token → Prop
  | .program => BranchBalanced false
  | .chainRest => ChainEnd

/-- Blocks and clauses of a well-formed part end inside it. -/
theorem WellFormed.encloses (hwell : WellFormed shape tokens) : Encloses shape tokens := by
  have hinert {inside : Bool} {piece : List Token} (hpiece : ∀ token ∈ piece, token.Inert) :
      BranchBalanced inside piece := .of_forall fun token htoken => (hpiece token htoken).branch?
  have hclause {thenToken : Token} {condition body : List Token} (hcondition : Condition condition)
      (hthen : thenToken.branch? = some .thenWord) (hbody : BranchBalanced false body) :
      BranchBalanced true (condition ++ thenToken :: body) :=
    (hinert hcondition.inert).append (.other (.inr hthen) hbody.within)
  induction hwell with
  | nil => exact .nil
  | atom hpiece _ ih => exact (hinert hpiece.arguments.inert).append ih
  | @loop _ header close last _ _ _ _ hheader harguments hclose _ hlast _ ihbody ihrest =>
      have hheader : header.branch? = none := by simp [Token.branch?, hheader]
      have hclose : close.branch? = none :=
        (Token.inert_of_ofToken?_eq_none (Token.ofToken?_eq_none_of_close hclose)).branch?
      have hlast : last.branch? = none := by simp [Token.branch?, hlast]
      exact .other (.inl hheader) ((hinert harguments.inert).append
        (.other (.inl hclose) (ihbody.append (.other (.inl hlast) ihrest))))
  | chain hif hcondition hthen _ _ _ ihbody ihchain ihrest =>
      have hblock := ihchain.block hif (hclause hcondition hthen ihbody) ihrest
      simpa [Encloses] using hblock
  | elseIf helseIf hcondition hthen _ _ ihbody ihchain =>
      have hend := ihchain.cons_clause helseIf (hclause hcondition hthen ihbody)
      simpa [Encloses] using hend
  | elseWord helse _ hlast ihbody => exact .separator (.inr helse) ihbody.within hlast
  | endIf hlast => exact .endIf hlast

end Grammar

/-! ## Substitution -/

/-- A token that no placeholder can change, unless it is quoted. -/
def Token.Steady (token : Token) : Prop :=
  token.kind = .word ∨ token.kind = .call → '$' ∉ token.text.toList

/-- A change of tokens that keeps all tokens of a list but the quoted ones, which stay quoted. -/
structure Requotes (change : Token → Token) (tokens : List Token) : Prop where
  fixed : ∀ token ∈ tokens, token.kind ≠ .quoted → change token = token
  quoted : ∀ token, token.kind = .quoted → (change token).kind = .quoted

namespace Requotes

variable {change : Token → Token} {token : Token} {tokens rest : List Token}

theorem mono (hchange : Requotes change tokens) (hsubset : rest ⊆ tokens) :
    Requotes change rest :=
  ⟨fun token htoken => hchange.fixed token (hsubset htoken), hchange.quoted⟩

theorem tail (hchange : Requotes change (token :: rest)) : Requotes change rest :=
  hchange.mono (List.subset_cons_self token rest)

theorem left (hchange : Requotes change (tokens ++ rest)) : Requotes change tokens :=
  hchange.mono (List.subset_append_left tokens rest)

theorem right (hchange : Requotes change (tokens ++ rest)) : Requotes change rest :=
  hchange.mono (List.subset_append_right tokens rest)

theorem head_eq (hchange : Requotes change (token :: rest)) (hkind : token.kind ≠ .quoted) :
    change token = token :=
  hchange.fixed token List.mem_cons_self hkind

/-- Keywords are kept. -/
theorem keyword_eq (hchange : Requotes change (token :: rest)) {keyword : Keyword}
    (htoken : Keyword.ofToken? token = some keyword) : change token = token := by
  refine hchange.head_eq fun hquoted => ?_
  simp [Keyword.ofToken?, hquoted] at htoken

theorem branch_eq (hchange : Requotes change (token :: rest)) {part : Branch}
    (htoken : token.branch? = some part) : change token = token :=
  hchange.keyword_eq ((Token.branch?_eq_some_iff token part).mp htoken)

/-- Literals stay literals. -/
theorem isLiteral (hchange : Requotes change (token :: rest)) (htoken : token.isLiteral = true) :
    (change token).isLiteral = true := by
  by_cases hquoted : token.kind = .quoted
  · simp [Token.isLiteral, hchange.quoted token hquoted]
  · rw [hchange.head_eq hquoted, htoken]

theorem steady (hchange : Requotes change tokens) (hsteady : ∀ token ∈ tokens, token.Steady) :
    ∀ token ∈ tokens.map change, token.Steady := by
  rw [List.forall_mem_map]
  intro token htoken
  by_cases hquoted : token.kind = .quoted
  · simp [Token.Steady, hchange.quoted token hquoted]
  · rw [hchange.fixed token htoken hquoted]
    exact hsteady token htoken

end Requotes

namespace Exec

theorem substituteToken_requotes {tokens : List Token} (hsteady : ∀ token ∈ tokens, token.Steady)
    (name value : String) : Requotes (substituteToken ("$" ++ name) value) tokens where
  fixed token htoken hquoted := by
    have hsame (hkind : token.kind = .word ∨ token.kind = .call) :
        Text.replaceAll token.text ("$" ++ name) value = token.text := by
      rw [← String.toList_inj, Text.toList_replaceAll _ _ _ (by simp), String.toList_append]
      exact Text.replaceFrom_eq_self _ (hsteady token htoken hkind)
    rw [substituteToken]
    split
    next hkind => rw [hsame (.inr hkind)]
    next hkind => rw [hsame (.inl hkind)]
    next hkind => exact absurd hkind hquoted
    next => rfl
  quoted token hkind := by
    simp only [substituteToken, hkind]

end Exec

namespace Grammar

variable {change : Token → Token} {shape : Shape} {tokens : List Token}

theorem Arguments.map (harguments : Arguments tokens) (hchange : Requotes change tokens) :
    Arguments (tokens.map change) := by
  induction harguments with
  | nil => exact .nil
  | comma htoken _ ih =>
      rw [List.map_cons, hchange.head_eq (by simp [htoken])]
      exact .comma htoken (ih hchange.tail)
  | literal htoken _ ih => exact .literal (hchange.isLiteral htoken) (ih hchange.tail)
  | word htoken _ ih =>
      rw [List.map_cons, hchange.head_eq (by simp [htoken.kind])]
      exact .word htoken (ih hchange.tail)
  | call hopener _ hclose _ ihinner ihrest =>
      rw [List.map_cons, hchange.head_eq (by simp [hopener.kind]), List.map_append, List.map_cons,
        hchange.tail.right.head_eq (by simp [hclose])]
      exact .call hopener (ihinner hchange.tail.left) hclose (ihrest hchange.tail.right.tail)

theorem Atom.map (hpiece : Atom tokens) (hchange : Requotes change tokens) :
    Atom (tokens.map change) := by
  cases hpiece with
  | literal htoken => exact .literal (hchange.isLiteral htoken)
  | word htoken =>
      rw [List.map_singleton, hchange.head_eq (by simp [htoken.kind])]
      exact .word htoken
  | call hopener hinner hclose =>
      rw [List.map_cons, hchange.head_eq (by simp [hopener.kind]), List.map_append,
        List.map_singleton, hchange.tail.right.head_eq (by simp [hclose])]
      exact .call hopener (hinner.map hchange.tail.left) hclose

theorem Operand.map (hpiece : Operand tokens) (hchange : Requotes change tokens) :
    Operand (tokens.map change) := by
  induction hpiece with
  | atom hpiece => exact .atom (hpiece.map hchange)
  | negation htoken _ ih =>
      rw [List.map_cons, hchange.keyword_eq htoken]
      exact .negation htoken (ih hchange.tail)

theorem Terms.map (hterms : Terms tokens) (hchange : Requotes change tokens) :
    Terms (tokens.map change) := by
  induction hterms with
  | last hpiece => exact .last (hpiece.map hchange)
  | join hpiece htoken _ ih =>
      rw [List.map_append, List.map_cons,
        htoken.elim hchange.right.keyword_eq hchange.right.keyword_eq]
      exact .join (hpiece.map hchange.left) htoken (ih hchange.right.tail)

theorem Condition.map (hcondition : Condition tokens) (hchange : Requotes change tokens) :
    Condition (tokens.map change) := by
  rcases hcondition with rfl | hterms
  · exact .inl rfl
  · exact .inr (hterms.map hchange)

/-- Changing quoted literals keeps tokens well-formed. -/
theorem WellFormed.map (hwell : WellFormed shape tokens) (hchange : Requotes change tokens) :
    WellFormed shape (tokens.map change) := by
  induction hwell with
  | nil => exact .nil
  | atom hpiece _ ih =>
      rw [List.map_append]
      exact .atom (hpiece.map hchange.left) (ih hchange.right)
  | loop hkind hheader harguments hclose _ hlast _ ihbody ihrest =>
      have hafter := hchange.tail.right
      simp only [List.map_cons, List.map_append]
      rw [hchange.keyword_eq hheader, hafter.head_eq (by simp [hclose]),
        hafter.tail.right.keyword_eq hlast]
      exact .loop hkind hheader (harguments.map hchange.tail.left) hclose (ihbody hafter.tail.left)
        hlast (ihrest hafter.tail.right.tail)
  | chain hif hcondition hthen _ _ _ ihbody ihchain ihrest =>
      have hafter := hchange.tail.right
      simp only [List.map_cons, List.map_append]
      rw [hchange.branch_eq hif, hafter.branch_eq hthen]
      exact .chain hif (hcondition.map hchange.tail.left) hthen (ihbody hafter.tail.left)
        (ihchain hafter.tail.right.left) (ihrest hafter.tail.right.right)
  | elseIf helseIf hcondition hthen _ _ ihbody ihchain =>
      have hafter := hchange.tail.right
      simp only [List.map_cons, List.map_append]
      rw [hchange.branch_eq helseIf, hafter.branch_eq hthen]
      exact .elseIf helseIf (hcondition.map hchange.tail.left) hthen (ihbody hafter.tail.left)
        (ihchain hafter.tail.right)
  | elseWord helse _ hlast ihbody =>
      simp only [List.map_cons, List.map_append, List.map_nil]
      rw [hchange.branch_eq helse, hchange.tail.right.branch_eq hlast]
      exact .elseWord helse (ihbody hchange.tail.left) hlast
  | endIf hlast =>
      rw [List.map_singleton, hchange.branch_eq hlast]
      exact .endIf hlast

end Grammar

end AtScript
