import AtScript.Proofs.IdleScripts
import AtScript.Proofs.LayoutTokens
import AtScript.Proofs.Pages

/-! # The layout of programs

What the layout of a well-formed program is can be said by recursion over its blocks, line by line.
The page gets there token by token: a line is begun at the level that the tokens before it have
left, and a block leaves the level at which it was entered.
-/

namespace AtScript.Layout

open Grammar

/-! ## Lines -/

/-- The texts of some tokens, with nothing between them. -/
def written (tokens : List Token) : String :=
  String.join (tokens.map Token.text)

/-- A line that is indented by tabs. -/
def line (level : Nat) (text : String) : String :=
  String.ofList (List.replicate level '\t') ++ text

/-- The words of a condition: its calls with their arguments, its connectors and its other tokens.
-/
inductive Words : List Token → List String → Prop
  | nil : Words [] []
  | atom {piece rest : List Token} {words : List String} (hpiece : Atom piece)
      (hrest : Words rest words) : Words (piece ++ rest) (written piece :: words)
  | connector {token : Token} {connector : Connector} {rest : List Token} {words : List String}
      (htoken : Keyword.ofToken? token = some (.connector connector))
      (hrest : Words rest words) : Words (token :: rest) (token.text :: words)

/-- The line of an IF or ELSEIF, from it to its THEN. -/
def clause (first : Token) (words : List String) (last : Token) : String :=
  " ".intercalate (first.text :: (words ++ [last.text]))

/-- The lines of a program, or of the rest of a chain of branches, whose block is at a level. Every
statement begins a line; a call is one line; the bodies of loops and branches are one level further
in; and what ends a body stands alone at the level of the block. -/
inductive Lines : Nat → Shape → List Token → List String → Prop
  | nil {level : Nat} : Lines level .program [] []
  | atom {level : Nat} {piece rest : List Token} {lines : List String} (hpiece : Atom piece)
      (hrest : Lines level .program rest lines) :
      Lines level .program (piece ++ rest) (line level (written piece) :: lines)
  | loop {level : Nat} {family : LoopFamily} {header close last : Token}
      {arguments body rest : List Token} {inner lines : List String}
      (hheader : Keyword.ofToken? header = some (.loop family))
      (harguments : Arguments arguments) (hclose : close.kind = .close)
      (hbody : Lines (level + 1) .program body inner)
      (hlast : Keyword.ofToken? last = some (.endLoop family))
      (hrest : Lines level .program rest lines) :
      Lines level .program (header :: (arguments ++ close :: (body ++ last :: rest)))
        (line level (written (header :: (arguments ++ [close]))) ::
          (inner ++ line level last.text :: lines))
  | chain {level : Nat} {ifToken thenToken : Token} {condition body chainRest rest : List Token}
      {words inner others lines : List String}
      (hif : ifToken.branch? = some .ifWord) (hcondition : Words condition words)
      (hthen : thenToken.branch? = some .thenWord)
      (hbody : Lines (level + 1) .program body inner)
      (hchain : Lines level .chainRest chainRest others)
      (hrest : Lines level .program rest lines) :
      Lines level .program (ifToken :: (condition ++ thenToken :: (body ++ (chainRest ++ rest))))
        (line level (clause ifToken words thenToken) :: (inner ++ (others ++ lines)))
  | elseIf {level : Nat} {elseIfToken thenToken : Token} {condition body chainRest : List Token}
      {words inner others : List String}
      (helseIf : elseIfToken.branch? = some .elseIf) (hcondition : Words condition words)
      (hthen : thenToken.branch? = some .thenWord)
      (hbody : Lines (level + 1) .program body inner)
      (hchain : Lines level .chainRest chainRest others) :
      Lines level .chainRest (elseIfToken :: (condition ++ thenToken :: (body ++ chainRest)))
        (line level (clause elseIfToken words thenToken) :: (inner ++ others))
  | elseWord {level : Nat} {elseToken last : Token} {body : List Token} {inner : List String}
      (helse : elseToken.branch? = some .elseWord)
      (hbody : Lines (level + 1) .program body inner) (hlast : last.branch? = some .endIf) :
      Lines level .chainRest (elseToken :: (body ++ [last]))
        (line level elseToken.text :: (inner ++ [line level last.text]))
  | endIf {level : Nat} {last : Token} (hlast : last.branch? = some .endIf) :
      Lines level .chainRest [last] [line level last.text]

/-! ## Every well-formed program has lines -/

theorem Words.append {first second : List Token} {words others : List String}
    (hfirst : Words first words) (hsecond : Words second others) :
    Words (first ++ second) (words ++ others) := by
  induction hfirst with
  | nil => exact hsecond
  | atom hpiece _ ih =>
      rw [List.append_assoc]
      exact .atom hpiece ih
  | connector htoken _ ih => exact .connector htoken ih

theorem exists_words_of_operand {piece : List Token} (hpiece : Operand piece) :
    ∃ words, Words piece words := by
  induction hpiece with
  | @atom piece hpiece =>
      refine ⟨[written piece], ?_⟩
      rw [← List.append_nil piece]
      simpa using Words.atom hpiece .nil
  | negation htoken _ ih =>
      obtain ⟨words, hwords⟩ := ih
      exact ⟨_, .connector htoken hwords⟩

theorem exists_words {condition : List Token} (hcondition : Condition condition) :
    ∃ words, Words condition words := by
  rcases hcondition with rfl | hterms
  · exact ⟨[], .nil⟩
  induction hterms with
  | last hpiece => exact exists_words_of_operand hpiece
  | join hpiece htoken _ ih =>
      obtain ⟨words, hwords⟩ := exists_words_of_operand hpiece
      obtain ⟨others, hothers⟩ := ih
      rcases htoken with htoken | htoken
      · exact ⟨_, hwords.append (.connector htoken hothers)⟩
      · exact ⟨_, hwords.append (.connector htoken hothers)⟩

theorem exists_lines {shape : Shape} {tokens : List Token} (hwell : WellFormed shape tokens)
    (level : Nat) : ∃ lines, Lines level shape tokens lines := by
  induction hwell generalizing level with
  | nil => exact ⟨[], .nil⟩
  | atom hpiece _ ih =>
      obtain ⟨lines, hlines⟩ := ih level
      exact ⟨_, .atom hpiece hlines⟩
  | loop _ hheader harguments hclose _ hlast _ ihbody ihrest =>
      obtain ⟨inner, hinner⟩ := ihbody (level + 1)
      obtain ⟨lines, hlines⟩ := ihrest level
      exact ⟨_, .loop hheader harguments hclose hinner hlast hlines⟩
  | chain hif hcondition hthen _ _ _ ihbody ihchain ihrest =>
      obtain ⟨words, hwords⟩ := exists_words hcondition
      obtain ⟨inner, hinner⟩ := ihbody (level + 1)
      obtain ⟨others, hothers⟩ := ihchain level
      obtain ⟨lines, hlines⟩ := ihrest level
      exact ⟨_, .chain hif hwords hthen hinner hothers hlines⟩
  | elseIf helseIf hcondition hthen _ _ ihbody ihchain =>
      obtain ⟨words, hwords⟩ := exists_words hcondition
      obtain ⟨inner, hinner⟩ := ihbody (level + 1)
      obtain ⟨others, hothers⟩ := ihchain level
      exact ⟨_, .elseIf helseIf hwords hthen hinner hothers⟩
  | elseWord helse _ hlast ihbody =>
      obtain ⟨inner, hinner⟩ := ihbody (level + 1)
      exact ⟨_, .elseWord helse hinner hlast⟩
  | endIf hlast => exact ⟨_, .endIf hlast⟩

/-! ## Pages -/

/-- A text with one more line. -/
def appendLine (text line : String) : String :=
  if text.isEmpty then line else text ++ "\n" ++ line

/-- A page between two statements of a block. -/
def Page.between (level : Nat) (text : String) : Page where
  text := text
  indent := level + 1

/-- Parentheses are opened by calls alone. -/
def OpensByCalls (tokens : List Token) : Prop :=
  ∀ token ∈ tokens, token.opensGroup = true ↔ token.kind = .call

@[simp]
theorem written_cons (token : Token) (rest : List Token) :
    written (token :: rest) = token.text ++ written rest := by
  simp [written]

@[simp]
theorem written_append (first second : List Token) :
    written (first ++ second) = written first ++ written second := by
  simp [written]

@[simp]
theorem written_nil : written [] = "" := rfl

/-- A token that is neither a call nor a closing parenthesis and shapes no block. -/
structure IsPlain (token : Token) : Prop where
  inert : token.Inert
  call : token.kind ≠ .call
  close : token.kind ≠ .close

namespace IsPlain

variable {token : Token}

theorem comma (hkind : token.kind = .comma) : IsPlain token :=
  ⟨Token.inert_of_ofToken?_eq_none (Token.ofToken?_eq_none_of_comma hkind), by simp [hkind],
    by simp [hkind]⟩

theorem literal (hliteral : token.isLiteral = true) : IsPlain token := by
  refine ⟨Token.inert_of_ofToken?_eq_none (Token.ofToken?_eq_none_of_isLiteral hliteral), ?_, ?_⟩
  · intro hkind
    simp [Token.isLiteral, hkind] at hliteral
  · intro hkind
    simp [Token.isLiteral, hkind] at hliteral

theorem word (hword : token.BareWord) : IsPlain token :=
  ⟨hword.inert, by simp [hword.kind], by simp [hword.kind]⟩

theorem push (hplain : IsPlain token) (hopens : token.opensGroup = true ↔ token.kind = .call)
    (page : Page) :
    page.push token = { page with text := page.text ++ page.separator ++ token.text } := by
  apply Page.push_plain hplain.inert _ hplain.close
  rw [← Bool.not_eq_true, hopens]
  exact hplain.call

end IsPlain

/-- Inside parentheses, arguments are written one after the other. -/
theorem foldl_push_arguments {arguments : List Token} (harguments : Arguments arguments)
    (hopens : OpensByCalls arguments) (page : Page) (hinside : 0 < page.parentheses) :
    arguments.foldl Page.push page = { page with text := page.text ++ written arguments } := by
  have hplain {token : Token} {rest : List Token} (hplain : IsPlain token)
      (hopens : OpensByCalls (token :: rest)) (page : Page) (hinside : 0 < page.parentheses)
      (ih : OpensByCalls rest → ∀ page : Page, 0 < page.parentheses →
        rest.foldl Page.push page = { page with text := page.text ++ written rest }) :
      (token :: rest).foldl Page.push page =
        { page with text := page.text ++ written (token :: rest) } := by
    have hall := List.forall_mem_cons.mp hopens
    have hseparator := @Page.separator_inside page (by omega)
    rw [List.foldl_cons, hplain.push hall.1, ih hall.2, hseparator]
    · simp [String.append_assoc]
    · exact hinside
  induction harguments generalizing page with
  | nil => simp
  | comma htoken _ ih => exact hplain (.comma htoken) hopens page hinside ih
  | literal htoken _ ih => exact hplain (.literal htoken) hopens page hinside ih
  | word htoken _ ih => exact hplain (.word htoken) hopens page hinside ih
  | @call opener close inner rest hopener _ hclose _ ihinner ihrest =>
      simp only [OpensByCalls, List.forall_mem_cons, List.forall_mem_append] at hopens
      obtain ⟨hopen, hinner, -, hrest⟩ := hopens
      have hseparator := @Page.separator_inside page (by omega)
      have hopened : page.push opener = { page with
          text := page.text ++ opener.text, parentheses := page.parentheses + 1 } := by
        rw [Page.push_opener hopener.inert (hopen.mpr hopener.kind), hseparator,
          String.append_empty]
      rw [List.foldl_cons, hopened, List.foldl_append, ihinner hinner, List.foldl_cons,
        Page.push_close hclose, ihrest hrest]
      · simp [String.append_assoc]
      · dsimp only
        omega
      · dsimp only
        omega
      · right
        dsimp only
        omega
      · dsimp only
        omega

/-- Outside parentheses, an atom is written after one separator. -/
theorem foldl_push_atom {piece : List Token} (hpiece : Atom piece) (hopens : OpensByCalls piece)
    {page : Page} (hparentheses : page.parentheses = 0) (hheader : page.inLoopHeader = false) :
    piece.foldl Page.push page =
      { page with text := page.text ++ page.separator ++ written piece } := by
  cases hpiece with
  | literal htoken =>
      rw [List.foldl_cons, (IsPlain.literal htoken).push (hopens _ List.mem_cons_self)]
      simp
  | word htoken =>
      rw [List.foldl_cons, (IsPlain.word htoken).push (hopens _ List.mem_cons_self)]
      simp
  | @call opener close inner hopener hinner hclose =>
      simp only [OpensByCalls, List.forall_mem_cons, List.forall_mem_append] at hopens
      obtain ⟨hopen, hopensInner, -⟩ := hopens
      rw [List.foldl_cons, Page.push_opener hopener.inert (hopen.mpr hopener.kind),
        List.foldl_append, foldl_push_arguments hinner hopensInner, List.foldl_cons,
        Page.push_close hclose]
      · simp [hparentheses, String.append_assoc]
      · simp [hparentheses]
      · exact .inl hheader
      · simp [hparentheses]

/-- The words of a condition are written with single spaces before them. -/
theorem foldl_push_words {tokens : List Token} {words : List String} (hwords : Words tokens words)
    (hopens : OpensByCalls tokens) (page : Page) (hparentheses : page.parentheses = 0)
    (hheader : page.inLoopHeader = false) (hcondition : page.inCondition = true) :
    tokens.foldl Page.push page =
      { page with text := words.foldl (fun text word => text ++ " " ++ word) page.text } := by
  have hseparator : page.separator = " " := by
    simp [Page.separator, hparentheses, hcondition]
  induction hwords generalizing page with
  | nil => simp
  | atom hpiece _ ih =>
      rw [OpensByCalls, List.forall_mem_append] at hopens
      rw [List.foldl_append, foldl_push_atom hpiece hopens.1 hparentheses hheader, ih hopens.2]
      · simp [hseparator]
      · exact hparentheses
      · exact hheader
      · exact hcondition
      · simp [Page.separator, hparentheses, hcondition]
  | @connector token connector rest words htoken _ ih =>
      rw [OpensByCalls, List.forall_mem_cons] at hopens
      have hkind := Keyword.kind_of_isStructural htoken rfl
      have hplain : IsPlain token := by
        refine ⟨fun keyword hkeyword => ?_, by simp [hkind], by simp [hkind]⟩
        cases htoken.symm.trans hkeyword
        rfl
      rw [List.foldl_cons, hplain.push hopens.1, ih hopens.2]
      · simp [hseparator]
      · exact hparentheses
      · exact hheader
      · exact hcondition
      · simp [Page.separator, hparentheses, hcondition]

/-! ## Lines of a page -/

theorem separator_between (level : Nat) (text more : String) :
    text ++ (Page.between level text).separator ++ more = appendLine text (line level more) := by
  have htabs : ((Page.between level text).indent - 1).toNat = level := by
    simp [Page.between]
  rw [Page.separator, htabs, appendLine, line]
  cases hempty : text.isEmpty with
  | true => simp [Page.between, String.isEmpty_iff.mp hempty]
  | false => simp [Page.between, hempty, String.append_assoc]

/-- What is joined with a separator is written piece by piece. -/
theorem foldl_append_separator (before separator first : String) (rest : List String) :
    rest.foldl (fun text more => text ++ separator ++ more) (before ++ first) =
      before ++ separator.intercalate (first :: rest) := by
  induction rest generalizing before first with
  | nil => simp
  | cons second rest ih =>
      rw [List.foldl_cons, ih, String.intercalate_cons_cons]
      simp [String.append_assoc]

theorem foldl_push_between_atom {piece : List Token} (hpiece : Atom piece)
    (hopens : OpensByCalls piece) (level : Nat) (text : String) :
    piece.foldl Page.push (.between level text) =
      .between level (appendLine text (line level (written piece))) := by
  rw [foldl_push_atom hpiece hopens rfl rfl, ← separator_between]
  rfl

/-- The header of a loop is a line, and the next one is further in. -/
theorem foldl_push_header {family : LoopFamily} {header close : Token} {arguments : List Token}
    (hheader : Keyword.ofToken? header = some (.loop family)) (harguments : Arguments arguments)
    (hclose : close.kind = .close) (hopens : OpensByCalls (header :: (arguments ++ [close])))
    (level : Nat) (text : String) :
    (header :: (arguments ++ [close])).foldl Page.push (.between level text) =
      .between (level + 1)
        (appendLine text (line level (written (header :: (arguments ++ [close]))))) := by
  simp only [OpensByCalls, List.forall_mem_cons, List.forall_mem_append] at hopens
  obtain ⟨hopen, hinner, -⟩ := hopens
  rw [List.foldl_cons, Page.push_loop hheader (hopen.mpr (Keyword.kind_of_loop hheader)),
    List.foldl_append, foldl_push_arguments harguments hinner, List.foldl_cons,
    Page.push_close_header hclose, ← separator_between]
  · simp [Page.between, String.append_assoc]
  · rfl
  · rfl
  · simp [Page.between]

theorem opensGroup_of_isStructural {keyword : Keyword} {token : Token}
    (htoken : Keyword.ofToken? token = some keyword) (hkeyword : keyword.isStructural = true)
    (hopens : token.opensGroup = true ↔ token.kind = .call) : token.opensGroup = false := by
  rw [← Bool.not_eq_true, hopens, Keyword.kind_of_isStructural htoken hkeyword]
  nofun

/-- A keyword that ends a body stands one level further out. -/
theorem push_end {keyword : Keyword} {token : Token}
    (htoken : Keyword.ofToken? token = some keyword) (hkeyword : keyword.isStructural = true)
    (hends : endsBody keyword = true) (hopens : token.opensGroup = true ↔ token.kind = .call)
    (level : Nat) (text : String) :
    (Page.between (level + 1) text).push token =
      Page.noteKeyword (.between level (appendLine text (line level token.text))) keyword := by
  have houtdent : (Page.between (level + 1) text).outdent keyword = .between level text := by
    simp [Page.outdent, hends, Page.between]
  rw [Page.push_structural htoken hkeyword (opensGroup_of_isStructural htoken hkeyword hopens),
    houtdent, ← separator_between]
  rfl

theorem push_endLoop {family : LoopFamily} {token : Token}
    (htoken : Keyword.ofToken? token = some (.endLoop family))
    (hopens : token.opensGroup = true ↔ token.kind = .call) (level : Nat) (text : String) :
    (Page.between (level + 1) text).push token =
      .between level (appendLine text (line level token.text)) :=
  push_end htoken rfl rfl hopens level text

theorem push_endIf {token : Token} (htoken : token.branch? = some .endIf)
    (hopens : token.opensGroup = true ↔ token.kind = .call) (level : Nat) (text : String) :
    (Page.between (level + 1) text).push token =
      .between level (appendLine text (line level token.text)) :=
  push_end ((Token.branch?_eq_some_iff token _).mp htoken) rfl rfl hopens level text

theorem push_else {token : Token} (htoken : token.branch? = some .elseWord)
    (hopens : token.opensGroup = true ↔ token.kind = .call) (level : Nat) (text : String) :
    (Page.between (level + 1) text).push token =
      .between (level + 1) (appendLine text (line level token.text)) :=
  push_end ((Token.branch?_eq_some_iff token _).mp htoken) rfl rfl hopens level text

/-- A page after an IF or ELSEIF, in the middle of its line. -/
def Page.inClause (level : Nat) (text : String) (first : Token) : Page :=
  { Page.between level (appendLine text (line level first.text)) with inCondition := true }

theorem push_elseIf {token : Token} (htoken : token.branch? = some .elseIf)
    (hopens : token.opensGroup = true ↔ token.kind = .call) (level : Nat) (text : String) :
    (Page.between (level + 1) text).push token = .inClause level text token :=
  push_end ((Token.branch?_eq_some_iff token _).mp htoken) rfl rfl hopens level text

theorem push_if {token : Token} (htoken : token.branch? = some .ifWord)
    (hopens : token.opensGroup = true ↔ token.kind = .call) (level : Nat) (text : String) :
    (Page.between level text).push token = .inClause level text token := by
  rw [Token.branch?_eq_some_iff] at htoken
  rw [Page.push_structural htoken rfl (opensGroup_of_isStructural htoken rfl hopens),
    Page.inClause, ← separator_between]
  rfl

/-- The condition and its THEN complete the line, and the next one is further in. -/
theorem foldl_push_clause {condition : List Token} {words : List String} {thenToken : Token}
    (hwords : Words condition words) (hthen : thenToken.branch? = some .thenWord)
    (hopens : OpensByCalls (condition ++ [thenToken])) (first : Token) (level : Nat)
    (text : String) :
    (condition ++ [thenToken]).foldl Page.push (.inClause level text first) =
      .between (level + 1) (appendLine text (line level (clause first words thenToken))) := by
  rw [OpensByCalls, List.forall_mem_append, List.forall_mem_singleton] at hopens
  rw [Token.branch?_eq_some_iff] at hthen
  rw [List.foldl_append, foldl_push_words hwords hopens.1 _ rfl rfl rfl, List.foldl_cons,
    Page.push_structural hthen rfl (opensGroup_of_isStructural hthen rfl hopens.2), clause,
    ← separator_between, ← foldl_append_separator, List.foldl_append]
  simp only [Page.inClause, ← separator_between]
  rfl

/-! ## Programs -/

/-- The level at which tokens of a shape are met: the rest of a chain follows one of its bodies. -/
def startLevel : Shape → Nat → Nat
  | .program, level => level
  | .chainRest, level => level + 1

theorem OpensByCalls.of_subset {tokens rest : List Token} (hopens : OpensByCalls tokens)
    (hsubset : rest ⊆ tokens) : OpensByCalls rest :=
  fun token hmem => hopens token (hsubset hmem)

/-- The page gets the lines of a block one after the other and is back at the level of the block. -/
theorem foldl_push_lines {level : Nat} {shape : Shape} {tokens : List Token} {lines : List String}
    (hlines : Lines level shape tokens lines) (hopens : OpensByCalls tokens) (text : String) :
    tokens.foldl Page.push (.between (startLevel shape level) text) =
      .between level (lines.foldl appendLine text) := by
  induction hlines generalizing text with
  | nil => rfl
  | atom hpiece _ ih =>
      rw [OpensByCalls, List.forall_mem_append] at hopens
      rw [List.foldl_append, startLevel, foldl_push_between_atom hpiece hopens.1]
      exact ih hopens.2 _
  | @loop level family header close last arguments body rest inner lines hheader harguments hclose
      _ hlast _ ihbody ihrest =>
      simp only [startLevel] at ihbody ihrest ⊢
      have hwhole : header :: (arguments ++ close :: (body ++ last :: rest)) =
          (header :: (arguments ++ [close])) ++ (body ++ last :: rest) := by simp
      rw [hwhole] at hopens ⊢
      have hline := hopens.of_subset (List.subset_append_left _ _)
      have hblock := hopens.of_subset (List.subset_append_right _ _)
      have hinner := hblock.of_subset (List.subset_append_left _ _)
      have hafter := List.forall_mem_cons.mp (hblock.of_subset (List.subset_append_right _ _))
      rw [List.foldl_append, foldl_push_header hheader harguments hclose hline, List.foldl_append,
        ihbody hinner, List.foldl_cons, push_endLoop hlast hafter.1, ihrest hafter.2]
      simp
  | @chain level ifToken thenToken condition body chainRest rest words inner others lines hif
      hcondition hthen _ _ _ ihbody ihchain ihrest =>
      simp only [startLevel] at ihbody ihchain ihrest ⊢
      have hwhole : condition ++ thenToken :: (body ++ (chainRest ++ rest)) =
          (condition ++ [thenToken]) ++ (body ++ (chainRest ++ rest)) := by simp
      rw [hwhole] at hopens ⊢
      obtain ⟨hfirst, hothers⟩ := List.forall_mem_cons.mp hopens
      obtain ⟨hline, hblock⟩ := List.forall_mem_append.mp hothers
      obtain ⟨hinner, hafter⟩ := List.forall_mem_append.mp hblock
      obtain ⟨hchain, hrest⟩ := List.forall_mem_append.mp hafter
      rw [List.foldl_cons, push_if hif hfirst, List.foldl_append,
        foldl_push_clause hcondition hthen hline, List.foldl_append, ihbody hinner,
        List.foldl_append, ihchain hchain, ihrest hrest]
      simp
  | @elseIf level elseIfToken thenToken condition body chainRest words inner others helseIf
      hcondition hthen _ _ ihbody ihchain =>
      simp only [startLevel] at ihbody ihchain ⊢
      have hwhole : condition ++ thenToken :: (body ++ chainRest) =
          (condition ++ [thenToken]) ++ (body ++ chainRest) := by simp
      rw [hwhole] at hopens ⊢
      obtain ⟨hfirst, hothers⟩ := List.forall_mem_cons.mp hopens
      obtain ⟨hline, hblock⟩ := List.forall_mem_append.mp hothers
      obtain ⟨hinner, hchain⟩ := List.forall_mem_append.mp hblock
      rw [List.foldl_cons, push_elseIf helseIf hfirst, List.foldl_append,
        foldl_push_clause hcondition hthen hline, List.foldl_append, ihbody hinner,
        ihchain hchain]
      simp
  | elseWord helse _ hlast ihbody =>
      simp only [startLevel] at ihbody ⊢
      obtain ⟨hfirst, hblock⟩ := List.forall_mem_cons.mp hopens
      obtain ⟨hinner, hend⟩ := List.forall_mem_append.mp hblock
      rw [List.foldl_cons, push_else helse hfirst, List.foldl_append, ihbody hinner,
        List.foldl_cons, push_endIf hlast (hend _ List.mem_cons_self)]
      simp
  | endIf hlast => exact push_endIf hlast (hopens _ List.mem_cons_self) _ text

/-! ## Whole scripts -/

/-- In a script without literals that end in a parenthesis, calls alone open parentheses. -/
theorem opensByCalls_scan {script : String}
    (hliteral : ∀ token ∈ Token.scan script, token.kind = .word → token.hasAt = false →
      token.text.back? ≠ some '(') : OpensByCalls (Token.scan script) := by
  intro token hmem
  cases hkind : token.kind with
  | call =>
      have hspelled := Token.spelled_of_mem_scan hmem (by simp [hkind])
      simp [hspelled.opensGroup_of_call hkind]
  | word =>
      refine iff_of_false ?_ nofun
      cases hat : token.hasAt with
      | true =>
          have hspelled := Token.spelled_of_mem_scan hmem (by simp [hkind])
          simp [hspelled.opensGroup_of_command hkind hat]
      | false =>
          simp [Token.opensGroup, hkind, hliteral token hmem hkind hat]
  | quoted | comma | close => simp [Token.opensGroup, hkind]

/-- Lines after a first one that is not empty are separated by line feeds. -/
theorem foldl_appendLine {first : String} (hfirst : first ≠ "") (lines : List String) :
    lines.foldl appendLine first = "\n".intercalate (first :: lines) := by
  have hstep (text : String) (htext : text ≠ "") (more : String) :
      appendLine text more = text ++ "\n" ++ more ∧ appendLine text more ≠ "" := by
    have hshown : appendLine text more = text ++ "\n" ++ more := by
      simp [appendLine, htext]
    exact ⟨hshown, by simp [hshown, String.append_eq_empty_iff]⟩
  rw [← String.empty_append (s := "\n".intercalate _), ← foldl_append_separator,
    String.empty_append]
  induction lines generalizing first with
  | nil => rfl
  | cons second lines ih =>
      obtain ⟨hshown, hne⟩ := hstep first hfirst second
      rw [List.foldl_cons, List.foldl_cons, ih hne, hshown]

theorem exists_cons_of_atom {piece : List Token} (hpiece : Atom piece) :
    ∃ token rest, piece = token :: rest := by
  cases hpiece with
  | literal htoken => exact ⟨_, _, rfl⟩
  | word htoken => exact ⟨_, _, rfl⟩
  | call hopener hinner hclose => exact ⟨_, _, rfl⟩

theorem line_ne_empty {text : String} (htext : text ≠ "") (level : Nat) : line level text ≠ "" := by
  simp [line, String.append_eq_empty_iff, htext]

theorem clause_ne_empty (first : Token) (words : List String) (last : Token) :
    clause first words last ≠ "" := by
  cases words <;> simp [clause, String.append_eq_empty_iff]

/-- The first line is that of the first token. -/
theorem Lines.exists_first {level : Nat} {token : Token} {rest : List Token} {lines : List String}
    (hlines : Lines level .program (token :: rest) lines) (htext : token.text ≠ "") :
    ∃ first more, lines = first :: more ∧ first ≠ "" := by
  generalize htokens : token :: rest = tokens at hlines
  generalize hshape : Shape.program = shape at hlines
  cases hlines with
  | nil => cases htokens
  | atom hpiece hrest =>
      obtain ⟨first, more, rfl⟩ := exists_cons_of_atom hpiece
      obtain ⟨rfl, -⟩ := List.cons.inj htokens
      refine ⟨_, _, rfl, line_ne_empty ?_ level⟩
      simp [String.append_eq_empty_iff, htext]
  | loop hheader =>
      obtain ⟨rfl, -⟩ := List.cons.inj htokens
      refine ⟨_, _, rfl, line_ne_empty ?_ level⟩
      simp [String.append_eq_empty_iff, htext]
  | chain => exact ⟨_, _, rfl, line_ne_empty (clause_ne_empty _ _ _) level⟩
  | elseIf | elseWord | endIf => cases hshape

end AtScript.Layout
