import AtScript.Proofs.Decimals
import AtScript.Proofs.Evaluation
import AtScript.Proofs.LiteralCalls

/-! # Expressions

A script computes with integers by calls inside one another, whose innermost arguments are literals
and stored values. Such an expression is evaluated from the inside out and changes nothing: its
value depends on the store alone.
-/

namespace AtScript

/-! ## Literals -/

/-- A literal as scripts spell it, between quotes or as a word. -/
structure Literal where
  token : Token
  spelled : token.Spelled
  isLiteral : token.isLiteral = true

namespace Literal

/-- How a script spells the literal. -/
def text (literal : Literal) : String :=
  literal.token.text

/-- The text that the literal stands for. -/
def value (literal : Literal) : String :=
  literal.token.literalValue

/-- Any text, between quotes. -/
def quote (text : String) : Literal where
  token := .ofLiteral text
  spelled := Token.spelled_ofLiteral text
  isLiteral := rfl

theorem spelled_ofInt64 (number : Int64) :
    Token.Spelled ⟨.word, Decimal.ofInt64 number, default⟩ := by
  have hplain : (Decimal.numerals.all fun c =>
      c != '@' && (Token.startsWord c && Token.continuesWord c)) = true := by decide
  have hnumeral {c : Char} (hmem : c ∈ (Decimal.ofInt64 number).toList) :
      c ≠ '@' ∧ Token.startsWord c = true ∧ Token.continuesWord c = true := by
    have hall := List.all_eq_true.mp hplain c (Decimal.mem_numerals hmem)
    rwa [Bool.and_eq_true, Bool.and_eq_true, bne_iff_ne] at hall
  obtain ⟨c, rest, hchars⟩ :=
    List.exists_cons_of_ne_nil (Decimal.toList_ofInt64_ne_nil number)
  rw [hchars] at hnumeral
  rw [← String.ofList_toList (s := Decimal.ofInt64 number), hchars]
  obtain ⟨hat, hstarts, -⟩ := hnumeral List.mem_cons_self
  exact .plain hat hstarts fun d hmem => (hnumeral (List.mem_cons_of_mem c hmem)).2.2

theorem hasAt_ofInt64 (number : Int64) (span : Span) :
    Token.hasAt ⟨.word, Decimal.ofInt64 number, span⟩ = false := by
  have hnumerals : '@' ∉ Decimal.numerals := by decide
  rw [Token.hasAt, String.front?_eq, beq_eq_false_iff_ne]
  intro hfirst
  exact hnumerals (Decimal.mem_numerals (List.mem_of_mem_head? hfirst))

/-- An integer in decimal, without quotes. -/
def ofInt64 (number : Int64) : Literal where
  token := ⟨.word, Decimal.ofInt64 number, default⟩
  spelled := spelled_ofInt64 number
  isLiteral := by rw [Token.isLiteral, hasAt_ofInt64, Bool.not_false]

@[simp]
theorem value_quote (text : String) : (quote text).value = text :=
  Token.literalValue_ofLiteral text

theorem role_token (literal : Literal) : literal.token.role = .literal literal.value :=
  Token.role_of_isLiteral literal.isLiteral

end Literal

theorem Keyword.Callable.ordinary {keyword : Keyword} (hcall : keyword.Callable) :
    Token.Ordinary ⟨.call, keyword.spelling, default⟩ :=
  .inr ⟨keyword, hcall.2.2.2.2, hcall.2.1⟩

/-! ## Arguments in a row -/

namespace Token

/-- The parts of some arguments, with commas between them and the parenthesis that closes the
call. -/
def joined : List Token → List (List Token) → List Token
  | part, [] => part ++ [⟨.close, ")", default⟩]
  | part, next :: others => part ++ ⟨.comma, ",", default⟩ :: joined next others

/-- How a script spells the arguments of a call. -/
def joinedText : String → List String → String
  | part, [] => part ++ ")"
  | part, next :: others => part ++ ("," ++ joinedText next others)

/-- A text that is read as tokens of the given looks when something follows that ends a word. -/
def ReadsBefore (text : String) (looks : List (TokenKind × String)) : Prop :=
  ∀ {second : String} {c : Char} {rest : List Char} {more : List (TokenKind × String)},
    second.toList = c :: rest → endsWord c = true → ReadsAs second more →
    ReadsAs (text ++ second) (looks ++ more)

theorem readsAs_joinedText {text : String} {tokens : List Token}
    (hfirst : ReadsBefore text (tokens.map look)) {others : List (String × List Token)}
    (hothers : ∀ part ∈ others, ReadsBefore part.1 (part.2.map look)) :
    ReadsAs (joinedText text (others.map Prod.fst))
      ((joined tokens (others.map Prod.snd)).map look) := by
  induction others generalizing text tokens with
  | nil =>
      have hchars : ")".toList = [')'] := by simp
      have hclose := hfirst hchars (by decide) readsAs_close
      rw [List.map_nil, List.map_nil, joinedText, joined, List.map_append]
      exact hclose
  | cons next others ih =>
      obtain ⟨hnext, hothers⟩ := List.forall_mem_cons.mp hothers
      have hchars : ("," ++ joinedText next.1 (others.map Prod.fst)).toList =
          ',' :: (joinedText next.1 (others.map Prod.fst)).toList := by simp
      have hcomma := hfirst hchars (by decide) (readsAs_comma.append (ih hnext hothers))
      rw [List.map_cons, List.map_cons, joinedText, joined, List.map_append, List.map_cons]
      exact hcomma

/-- A call of a keyword is read as its tokens. -/
theorem readsAs_joinedCall {keyword : Keyword} (hcall : keyword.Callable) {text : String}
    {tokens : List Token} (hfirst : ReadsBefore text (tokens.map look))
    {others : List (String × List Token)}
    (hothers : ∀ part ∈ others, ReadsBefore part.1 (part.2.map look)) :
    ReadsAs (keyword.spelling ++ joinedText text (others.map Prod.fst))
      ((⟨.call, keyword.spelling, default⟩ :: joined tokens (others.map Prod.snd)).map look) :=
  (readsAs_spelling hcall).append (readsAs_joinedText hfirst hothers)

end Token

/-! ## Running a row of arguments -/

namespace Exec

variable {S : Type}

/-- Some tokens are one part of an argument: a literal, or a command that writes a text or fails and
changes nothing else. Its result depends on the store alone. -/
inductive Part (run : Runner S) (result : S → Except Fault String) : List Token → Prop
  | literal {token : Token} {value : String} (hrole : token.role = .literal value)
      (hresult : ∀ store, result store = .ok value) : Part run result [token]
  | command {token : Token} {tokens : List Token} (hordinary : token.Ordinary)
      (hruns : ∀ rest frame, run (token :: tokens ++ rest) frame =
        (do
          write (← ofFault default (result frame.engine.store))
          return rest : Exec S (List Token)) frame) : Part run result (token :: tokens)

/-- What a command writes is captured instead. -/
theorem capture_eq_of_writes {action : Exec S (List Token)} {result : S → Except Fault String}
    {rest : List Token}
    (hruns : ∀ frame, action frame =
      (do
        write (← ofFault default (result frame.engine.store))
        return rest : Exec S (List Token)) frame) (frame : Frame S) :
    capture action frame =
      (do return (rest, ← ofFault default (result frame.engine.store)) :
        Exec S (List Token × String)) frame := by
  obtain ⟨engine, out⟩ := frame
  rw [capture, hruns]
  dsimp only
  cases result engine.store with
  | ok text =>
      change EStateM.Result.ok (rest, "" ++ text) (Frame.mk engine out) = _
      rw [String.empty_append]
      rfl
  | error fault => rfl

/-- A part is evaluated where it stands, and the argument goes on behind it. -/
theorem argumentsFrom_part {run : Runner S} {result : S → Except Fault String}
    {tokens : List Token} (hpart : Part run result tokens) (opener : Token) (budget : Nat)
    (before : String) (begun : Bool) (rest : List Token) (frame : Frame S) :
    argumentsFrom run opener (budget + 1) before begun (tokens ++ rest) frame =
      (do
        let text ← ofFault default (result frame.engine.store)
        argumentsFrom run opener budget (before ++ text) true rest :
          Exec S (List String × List Token)) frame := by
  cases hpart with
  | literal hrole hresult =>
      simp only [List.singleton_append, argumentsFrom, hrole, hresult]
      rfl
  | command hordinary hruns =>
      rw [List.cons_append, argumentsFrom_of_ordinary _ _ _ _ _ hordinary, ← List.cons_append,
        bind_apply, capture_eq_of_writes (hruns rest)]
      cases result frame.engine.store <;> rfl

theorem argumentsFrom_joined {run : Runner S} {result : S → Except Fault String}
    {tokens : List Token} (hpart : Part run result tokens)
    {others : List ((S → Except Fault String) × List Token)}
    (hothers : ∀ part ∈ others, Part run part.1 part.2) (opener : Token) {budget : Nat}
    (hbudget : 2 * others.length + 2 ≤ budget) (begun : Bool) (rest : List Token)
    (frame : Frame S) :
    argumentsFrom run opener budget "" begun
        (Token.joined tokens (others.map Prod.snd) ++ rest) frame =
      (do
        let values ← ofFault default
          ((result :: others.map Prod.fst).mapM fun part => part frame.engine.store)
        return (values, rest) : Exec S (List String × List Token)) frame := by
  induction others generalizing result tokens budget begun with
  | nil =>
      have htwo : 2 ≤ budget := hbudget
      obtain ⟨budget, rfl⟩ := Nat.exists_eq_add_of_le' htwo
      have hclose : Token.role ⟨.close, ")", default⟩ = .close := rfl
      rw [List.map_nil, List.map_nil, Token.joined, List.append_assoc, argumentsFrom_part hpart,
        bind_apply, bind_apply, List.mapM_cons, List.mapM_nil]
      cases result frame.engine.store with
      | error fault => rfl
      | ok text =>
          simp only [List.singleton_append, argumentsFrom, hclose, String.empty_append, if_true]
          rfl
  | cons next others ih =>
      obtain ⟨hnext, hothers⟩ := List.forall_mem_cons.mp hothers
      rw [List.length_cons] at hbudget
      have htwo : 2 ≤ budget := by omega
      obtain ⟨budget, rfl⟩ := Nat.exists_eq_add_of_le' htwo
      have hcomma : Token.role ⟨.comma, ",", default⟩ = .comma := rfl
      have hrest := @ih _ _ hnext hothers budget (by omega) true
      rw [List.map_cons, List.map_cons, Token.joined, List.append_assoc, argumentsFrom_part hpart,
        bind_apply, bind_apply, List.mapM_cons]
      cases result frame.engine.store with
      | error fault => rfl
      | ok text =>
          simp only [List.cons_append, argumentsFrom, hcomma, String.empty_append]
          change (argumentsFrom run opener budget "" true
            (Token.joined next.2 (others.map Prod.snd) ++ rest) >>= _) frame = _
          rw [bind_apply, hrest, bind_apply]
          cases (next.1 :: others.map Prod.fst).mapM fun part => part frame.engine.store <;> rfl

theorem sequenceAll_of_error {run : Runner S} {token : Token} {tokens : List Token}
    {frame after : Frame S} {stop : Stop RunError}
    (hcommand : run (token :: tokens) frame = .error stop after) :
    sequenceAll run (token :: tokens) frame = .error stop after := by
  rw [sequenceAll, List.length_cons]
  simp only [sequence, bind_apply, hcommand]

theorem length_of_mapM {results : List (S → Except Fault String)} {store : S}
    {values : List String} (hvalues : (results.mapM fun part => part store) = .ok values) :
    values.length = results.length := by
  induction results generalizing values with
  | nil =>
      cases hvalues
      rfl
  | cons result results ih =>
      rw [List.mapM_cons] at hvalues
      cases hresult : result store with
      | error fault =>
          rw [hresult] at hvalues
          cases hvalues
      | ok value =>
          cases hothers : results.mapM fun part => part store with
          | error fault =>
              rw [hresult, hothers] at hvalues
              cases hvalues
          | ok others =>
              rw [hresult, hothers] at hvalues
              cases hvalues
              rw [List.length_cons, List.length_cons, ih hothers]

variable [Store S]

/-- A call evaluates its arguments and runs its keyword on them. -/
theorem command_joinedCall {fuel : Nat} {keyword : Keyword} (hcall : keyword.Callable)
    {result : S → Except Fault String} {tokens : List Token}
    (hpart : Part (command fuel) result tokens)
    {others : List ((S → Except Fault String) × List Token)}
    (hothers : ∀ part ∈ others, Part (command fuel) part.1 part.2)
    (harity : keyword.arity.accepts (others.length + 1) = true)
    (hfuel : 2 * others.length + 2 ≤ fuel) (rest : List Token) (frame : Frame S) :
    command (fuel + 1) (⟨.call, keyword.spelling, default⟩ ::
        Token.joined tokens (others.map Prod.snd) ++ rest) frame =
      (do
        let values ← ofFault default
          ((result :: others.map Prod.fst).mapM fun part => part frame.engine.store)
        builtin (command fuel) keyword default values
        return rest : Exec S (List Token)) frame := by
  obtain ⟨-, hcontrol, -, -, hrole⟩ := hcall
  rw [List.cons_append, command, commandWith_ordinary _ _ hrole hcontrol, builtinCall, bind_apply,
    arguments, if_pos rfl, argumentsFrom_joined hpart hothers _ hfuel, bind_apply, bind_apply]
  cases hvalues : (result :: others.map Prod.fst).mapM fun part => part frame.engine.store with
  | error fault => rfl
  | ok values =>
      have hlength : values.length = others.length + 1 := by
        rw [length_of_mapM hvalues, List.length_cons, List.length_map]
      rw [← hlength] at harity
      change (checkArity _ _ _ >>= _) frame = _
      rw [checkArity, if_pos harity]
      rfl

/-- A script that is one call does what the call does. -/
theorem sequenceAll_joinedCall {fuel : Nat} {keyword : Keyword} (hcall : keyword.Callable)
    {result : S → Except Fault String} {tokens : List Token}
    (hpart : Part (command fuel) result tokens)
    {others : List ((S → Except Fault String) × List Token)}
    (hothers : ∀ part ∈ others, Part (command fuel) part.1 part.2)
    (harity : keyword.arity.accepts (others.length + 1) = true)
    (hfuel : 2 * others.length + 2 ≤ fuel) (frame : Frame S) :
    sequenceAll (command (fuel + 1)) (⟨.call, keyword.spelling, default⟩ ::
        Token.joined tokens (others.map Prod.snd)) frame =
      (do
        let values ← ofFault default
          ((result :: others.map Prod.fst).mapM fun part => part frame.engine.store)
        builtin (command fuel) keyword default values : Exec S Unit) frame := by
  have hcommand := command_joinedCall hcall hpart hothers harity hfuel [] frame
  rw [List.append_nil, bind_apply] at hcommand
  rw [bind_apply]
  cases hvalues : ofFault default
      ((result :: others.map Prod.fst).mapM fun part => part frame.engine.store) frame with
  | error stop after =>
      rw [hvalues] at hcommand
      exact sequenceAll_of_error hcommand
  | ok values middle =>
      rw [hvalues] at hcommand
      simp only [bind_apply] at hcommand ⊢
      cases hbuiltin : builtin (command fuel) keyword default values middle with
      | error stop after =>
          rw [hbuiltin] at hcommand
          exact sequenceAll_of_error hcommand
      | ok value after =>
          rw [hbuiltin] at hcommand
          exact sequenceAll_of_command (command_advances (fuel + 1)) hcommand

end Exec

/-! ## Expressions -/

/-- A text that a script gives directly, reads from the store, or computes. -/
inductive Expression where
  | literal (given : Literal)
  /-- The value of the key that an expression gives. -/
  | stored (key : Expression)
  | computed (operation : Arithmetic) (left right : Expression)

namespace Expression

/-- How a script spells an expression. -/
def text : Expression → String
  | .literal given => given.text
  | .stored key => Keyword.get.spelling ++ Token.joinedText key.text []
  | .computed operation left right =>
    (Keyword.arithmetic operation).spelling ++ Token.joinedText left.text [right.text]

theorem text_stored (key : Expression) :
    (stored key).text = Keyword.get.spelling ++ key.text ++ ")" :=
  String.append_assoc.symm

theorem text_computed (operation : Arithmetic) (left right : Expression) :
    (computed operation left right).text =
      (Keyword.arithmetic operation).spelling ++ left.text ++ "," ++ right.text ++ ")" := by
  simp only [text, Token.joinedText, String.append_assoc]

/-- The tokens of an expression. -/
def tokens : Expression → List Token
  | .literal given => [given.token]
  | .stored key => ⟨.call, Keyword.get.spelling, default⟩ :: Token.joined key.tokens []
  | .computed operation left right =>
    ⟨.call, (Keyword.arithmetic operation).spelling, default⟩ ::
      Token.joined left.tokens [right.tokens]

/-- How many calls an expression has inside one another. -/
def height : Expression → Nat
  | .literal _ => 0
  | .stored key => key.height + 1
  | .computed _ left right => max left.height right.height + 1

/-- What an expression gives in a store. Operands are evaluated from left to right before they are
read as integers. -/
def value {S : Type} [Store S] : Expression → S → Except Fault String
  | .literal given, _ => .ok given.value
  | .stored key, store => do
    return Store.get store (← key.value store)
  | .computed operation left right, store => do
    let x ← left.value store
    let y ← right.value store
    Function.eval (.arithmetic operation) [x, y]

theorem callable_arithmetic (operation : Arithmetic) :
    (Keyword.arithmetic operation).Callable := by
  cases operation <;> decide +kernel

/-- An expression is read as its tokens. -/
theorem readsBefore (expression : Expression) :
    Token.ReadsBefore expression.text (expression.tokens.map Token.look) := by
  induction expression with
  | literal given =>
      intro second c rest more hchars hends hsecond
      exact .spelled_append given.spelled hchars hends hsecond
  | stored key ih =>
      intro second c rest more _ _ hsecond
      have hget : Keyword.get.Callable := by decide +kernel
      have hcall := Token.readsAs_joinedCall hget ih (List.forall_mem_nil _)
      exact hcall.append hsecond
  | computed operation left right ihleft ihright =>
      intro second c rest more _ _ hsecond
      have hright : ∀ part ∈ [(right.text, right.tokens)],
          Token.ReadsBefore part.1 (part.2.map Token.look) := List.forall_mem_singleton.mpr @ihright
      have hcall := Token.readsAs_joinedCall (callable_arithmetic operation) ihleft hright
      exact hcall.append hsecond

variable {S : Type} [Store S]

/-- Running an expression gives its value and changes nothing. -/
theorem part (expression : Expression) {fuel : Nat} (hfuel : expression.height + 4 ≤ fuel) :
    Exec.Part (S := S) (Exec.command fuel) expression.value expression.tokens := by
  induction expression generalizing fuel with
  | literal given => exact .literal given.role_token fun _ => rfl
  | stored key ih =>
      rw [height] at hfuel
      obtain ⟨fuel, rfl⟩ : ∃ less, fuel = less + 1 := ⟨fuel - 1, by omega⟩
      have hkey := @ih fuel (by omega)
      have hget : Keyword.get.Callable := by decide +kernel
      refine .command hget.ordinary fun rest frame => ?_
      have hone : 2 ≤ fuel := by omega
      have hcall := Exec.command_joinedCall hget hkey (List.forall_mem_nil _) rfl hone rest frame
      refine hcall.trans ?_
      rw [List.map_nil, List.mapM_cons, List.mapM_nil, value]
      cases key.value frame.engine.store <;> rfl
  | computed operation left right ihleft ihright =>
      rw [height] at hfuel
      obtain ⟨fuel, rfl⟩ : ∃ less, fuel = less + 1 := ⟨fuel - 1, by omega⟩
      have hleft := @ihleft fuel (by omega)
      have hright := @ihright fuel (by omega)
      have hoperation := callable_arithmetic operation
      have harity : (Keyword.arithmetic operation).arity.accepts 2 = true := by
        rw [Keyword.arity_arithmetic]
        rfl
      refine .command hoperation.ordinary fun rest frame => ?_
      -- Both operands are evaluated before either is read as an integer.
      have hothers : ∀ part ∈ [(right.value, right.tokens)],
          Exec.Part (S := S) (Exec.command fuel) part.1 part.2 :=
        List.forall_mem_singleton.mpr hright
      have htwo : 4 ≤ fuel := by omega
      have hcall := Exec.command_joinedCall hoperation hleft hothers harity htwo rest frame
      refine hcall.trans ?_
      simp only [List.map_cons, List.map_nil, List.mapM_cons, List.mapM_nil, value]
      cases left.value frame.engine.store with
      | error fault => rfl
      | ok x =>
          cases right.value frame.engine.store with
          | error fault => rfl
          | ok y =>
              change ((Exec.ofFault default (Function.eval (.arithmetic operation) [x, y]) >>=
                Exec.write) >>= fun _ => pure rest) frame = _
              rw [bind_assoc]
              rfl

/-- How a script spells a call with expressions as its arguments. -/
def callText (keyword : Keyword) (first : Expression) (others : List Expression) : String :=
  keyword.spelling ++ Token.joinedText first.text (others.map text)

theorem callText_one (keyword : Keyword) (first : Expression) :
    callText keyword first [] = keyword.spelling ++ first.text ++ ")" :=
  String.append_assoc.symm

theorem callText_two (keyword : Keyword) (first second : Expression) :
    callText keyword first [second] =
      keyword.spelling ++ first.text ++ "," ++ second.text ++ ")" := by
  simp only [callText, List.map_cons, List.map_nil, Token.joinedText, String.append_assoc]

/-- The tokens of a call with expressions as its arguments. -/
def callTokens (keyword : Keyword) (first : Expression) (others : List Expression) : List Token :=
  ⟨.call, keyword.spelling, default⟩ :: Token.joined first.tokens (others.map tokens)

/-- Evaluates expressions and runs a keyword on their values. -/
def call (run : Runner S) (keyword : Keyword) (expressions : List Expression) :
    Exec S Unit := do
  let store ← Exec.store
  let values ← Exec.ofFault default (expressions.mapM fun expression => expression.value store)
  Exec.builtin run keyword default values

theorem looks_callText {keyword : Keyword} (hcall : keyword.Callable) (first : Expression)
    (others : List Expression) :
    (Token.scan (callText keyword first others)).map Token.look =
      (callTokens keyword first others).map Token.look := by
  let parts := others.map fun expression => (expression.text, expression.tokens)
  have hparts : ∀ part ∈ parts, Token.ReadsBefore part.1 (part.2.map Token.look) := by
    intro part hpart
    obtain ⟨expression, -, rfl⟩ := List.mem_map.mp hpart
    exact expression.readsBefore
  have hreads := Token.readsAs_joinedCall hcall first.readsBefore hparts
  rw [List.map_map, List.map_map] at hreads
  exact hreads.looks_scan

/-- A call that has as many arguments as its keyword takes and that some fuel suffices for. -/
structure Fits (fuel : Nat) (keyword : Keyword) (first : Expression) (others : List Expression) :
    Prop where
  callable : keyword.Callable
  arity : keyword.arity.accepts (others.length + 1) = true
  parts : 2 * others.length + 2 ≤ fuel
  height : ∀ expression ∈ first :: others, expression.height + 4 ≤ fuel

variable {fuel : Nat} {keyword : Keyword} {first : Expression} {others : List Expression}

theorem Fits.mono (hfits : Fits fuel keyword first others) {more : Nat} (hfuel : fuel ≤ more) :
    Fits more keyword first others where
  callable := hfits.callable
  arity := hfits.arity
  parts := hfits.parts.trans hfuel
  height expression hmem := (hfits.height expression hmem).trans hfuel

/-- The tokens of a call do what the call does. -/
theorem sequenceAll_callTokens (hfits : Fits fuel keyword first others) (frame : Frame S) :
    Exec.sequenceAll (Exec.command (fuel + 1)) (callTokens keyword first others) frame =
      call (Exec.command fuel) keyword (first :: others) frame := by
  let parts : List ((S → Except Fault String) × List Token) :=
    others.map fun expression => (expression.value, expression.tokens)
  obtain ⟨hcall, harity, hfuel, hheight⟩ := hfits
  obtain ⟨hfirst, hothers⟩ := List.forall_mem_cons.mp hheight
  have hparts : ∀ part ∈ parts, Exec.Part (Exec.command fuel) part.1 part.2 := by
    intro part hpart
    obtain ⟨expression, hmem, rfl⟩ := List.mem_map.mp hpart
    exact expression.part (hothers expression hmem)
  have hlength : parts.length = others.length := List.length_map _
  rw [← hlength] at harity hfuel
  have hsequence := Exec.sequenceAll_joinedCall hcall (first.part hfirst) hparts harity hfuel frame
  rw [List.map_map, List.map_map] at hsequence
  have hvalues : ((first.value :: others.map (Prod.fst ∘ fun expression : Expression =>
      (expression.value, expression.tokens))).mapM fun part => part frame.engine.store) =
      (first :: others).mapM fun expression => expression.value frame.engine.store :=
    List.mapM_map (l := first :: others)
  rw [hvalues] at hsequence
  exact hsequence

end Expression

namespace Engine

variable {S : Type} [Store S]

/-- A script fails for the cause for which any tokens that look like its own do, if these start with
a call. -/
theorem runWithin_failed_of_looks {fuel : Nat} {engine after : Engine S} {script out text : String}
    {span : Span} {tokens : List Token} (hlimit : Frame.exceededLimit? ⟨engine, ""⟩ = none)
    (hlooks : (Token.scan script).map Token.look = (⟨.call, text, span⟩ :: tokens).map Token.look)
    {error : RunError}
    (htokens : Exec.sequenceAll (Exec.command fuel) (⟨.call, text, span⟩ :: tokens)
      (Frame.enter ⟨engine, ""⟩) = .error (.failed error) (Frame.enter ⟨after, out⟩)) :
    ∃ found : RunError, found.kind = error.kind ∧
      engine.runWithin fuel script = ⟨after, some out, .error (.failed found)⟩ := by
  have hnull : ¬Value.isNull script = true := by
    rw [Token.isNull_iff_looks, hlooks]
    simp [Token.look]
  have hending : Exec.ending (Exec.nested (Exec.command fuel) script ⟨engine, ""⟩) =
      (⟨after, out⟩, .error (Stop.failed error).cause.deeper) := by
    rw [Exec.ending_nested _ _ hlimit, Exec.ending_sequenceAll_of_looks fuel hlooks, htokens]
    rfl
  rw [runWithin, if_neg hnull]
  cases hnested : Exec.nested (Exec.command fuel) script ⟨engine, ""⟩ with
  | ok value frame =>
      rw [hnested] at hending
      cases hending
  | error stop frame =>
      rw [hnested] at hending
      obtain ⟨rfl, hcause⟩ := Prod.mk.inj hending
      cases stop with
      | failed found =>
          have hkind := congrArg Prod.fst (Stop.failed.inj (Except.error.inj hcause))
          exact ⟨found, hkind, rfl⟩
      | outOfFuel | tooLong | defect => cases hcause

theorem exists_of_lt_ampleFuel {fuel : Nat} (hfuel : fuel < ampleFuel) :
    ∃ more, ampleFuel = more + 1 ∧ fuel ≤ more :=
  ⟨ampleFuel - 1, (Nat.sub_one_add_one (Nat.ne_zero_of_lt hfuel)).symm, Nat.le_sub_one_of_lt hfuel⟩

variable {fuel : Nat} {engine after : Engine S} {keyword : Keyword} {first : Expression}
  {others : List Expression} {out : String}

/-- A script that is one call leaves what the call leaves. -/
theorem run_callText (hlimit : Frame.exceededLimit? ⟨engine, ""⟩ = none) (hfuel : fuel < ampleFuel)
    (hfits : Expression.Fits fuel keyword first others)
    (hrun : ∀ run, Expression.call run keyword (first :: others) (Frame.enter ⟨engine, ""⟩) =
      .ok () (Frame.enter ⟨after, out⟩)) :
    engine.run (Expression.callText keyword first others) = ⟨after, some out, .ok ()⟩ := by
  obtain ⟨more, hample, hmore⟩ := exists_of_lt_ampleFuel hfuel
  have hlooks := Expression.looks_callText hfits.callable first others
  rw [run, hample]
  apply runWithin_of_looks hlimit hlooks
  exact (Expression.sequenceAll_callTokens (hfits.mono hmore) _).trans (hrun _)

/-- A script that is one call fails as the call fails. -/
theorem run_callText_of_failed (hlimit : Frame.exceededLimit? ⟨engine, ""⟩ = none)
    (hfuel : fuel < ampleFuel) (hfits : Expression.Fits fuel keyword first others)
    {error : RunError}
    (hrun : ∀ run, Expression.call run keyword (first :: others) (Frame.enter ⟨engine, ""⟩) =
      .error (.failed error) (Frame.enter ⟨after, out⟩)) :
    ∃ found : RunError, found.kind = error.kind ∧
      engine.run (Expression.callText keyword first others) =
        ⟨after, some out, .error (.failed found)⟩ := by
  obtain ⟨more, hample, hmore⟩ := exists_of_lt_ampleFuel hfuel
  have hlooks := Expression.looks_callText hfits.callable first others
  rw [run, hample]
  apply runWithin_failed_of_looks hlimit hlooks
  exact (Expression.sequenceAll_callTokens (hfits.mono hmore) _).trans (hrun _)

end Engine

end AtScript
