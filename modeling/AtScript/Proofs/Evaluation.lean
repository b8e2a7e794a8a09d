import AtScript.Proofs.CheckedRuns

/-! # What the arguments of a call are

The tokens between the parentheses of a call are read part by part: literals stand for themselves,
and commands are run once their own arguments are known. `Evaluates` says so without a cursor and
without fuel. Evaluating the arguments of a call always comes down to it, and ends at the closing
parenthesis that matches the call.
-/

namespace AtScript

open Grammar

/-! ## Matching parentheses -/

namespace Token

/-- The number of tokens of a kind. -/
def countKind (kind : TokenKind) (tokens : List Token) : Nat :=
  tokens.countP (·.kind = kind)

/-- The commas outside of all calls, where `depth` calls are open. -/
def ownCommas : Nat → List Token → Nat
  | _, [] => 0
  | depth, token :: rest =>
    match token.kind with
    | .call => ownCommas (depth + 1) rest
    | .close => ownCommas (depth - 1) rest
    | .comma => (if depth = 0 then 1 else 0) + ownCommas depth rest
    | _ => ownCommas depth rest

/-- Tokens in which every closing parenthesis comes after its call and every call is closed. -/
structure Enclosed (tokens : List Token) : Prop where
  covered : ∀ length,
    countKind .close (tokens.take length) ≤ countKind .call (tokens.take length)
  settled : countKind .close tokens = countKind .call tokens

@[simp] theorem countKind_nil (kind : TokenKind) : countKind kind [] = 0 := rfl

@[simp] theorem countKind_append (kind : TokenKind) (first second : List Token) :
    countKind kind (first ++ second) = countKind kind first + countKind kind second :=
  List.countP_append

theorem countKind_cons (kind : TokenKind) (token : Token) (rest : List Token) :
    countKind kind (token :: rest) = countKind kind rest + if token.kind = kind then 1 else 0 := by
  simp [countKind, List.countP_cons]

namespace Enclosed

theorem nil : Enclosed [] where
  covered length := by simp
  settled := rfl

theorem append {first second : List Token} (hfirst : Enclosed first) (hsecond : Enclosed second) :
    Enclosed (first ++ second) where
  covered length := by
    rw [List.take_append, countKind_append, countKind_append]
    exact Nat.add_le_add (hfirst.covered _) (hsecond.covered _)
  settled := by rw [countKind_append, countKind_append, hfirst.settled, hsecond.settled]

theorem cons {token : Token} (hcall : token.kind ≠ .call) (hclose : token.kind ≠ .close)
    {rest : List Token} (hrest : Enclosed rest) : Enclosed (token :: rest) where
  covered length := by
    cases length with
    | zero => simp [countKind]
    | succ length =>
        simpa [countKind_cons, hcall, hclose] using hrest.covered length
  settled := by simp [countKind_cons, hcall, hclose, hrest.settled]

/-- A call with its arguments and its closing parenthesis. -/
theorem call {opener close : Token} (hopener : opener.kind = .call) (hclose : close.kind = .close)
    {inner : List Token} (hinner : Enclosed inner) : Enclosed (opener :: (inner ++ [close])) where
  covered length := by
    cases length with
    | zero => simp [countKind]
    | succ length =>
        have hlast : countKind .close ([close].take (length - inner.length)) ≤ 1 :=
          List.countP_le_length.trans (List.length_take_le' _ _)
        have hbefore := hinner.covered length
        rw [List.take_succ_cons, List.take_append, countKind_cons, countKind_cons,
          countKind_append, countKind_append]
        simp only [hopener, if_true, reduceCtorEq, if_false]
        omega
  settled := by simp [countKind_cons, hopener, hclose, hinner.settled]

/-- Where tokens can be split at an unmatched closing parenthesis, they cannot be split at a later
one. -/
theorem length_le {inner inner' rest rest' : List Token} {close close' : Token}
    (hinner : Enclosed inner) (hinner' : Enclosed inner') (hclose : close.kind = .close)
    (heq : inner ++ close :: rest = inner' ++ close' :: rest') : inner'.length ≤ inner.length := by
  by_contra hlonger
  rw [Nat.not_le] at hlonger
  have htake : inner'.take (inner.length + 1) = inner ++ [close] := by
    have hprefix := congrArg (List.take (inner.length + 1)) heq
    rw [List.take_append_of_le_length hlonger] at hprefix
    rw [← hprefix, List.take_append]
    simp [List.take_of_length_le]
  have hcovered := hinner'.covered (inner.length + 1)
  rw [htake] at hcovered
  simp only [countKind_append, countKind_cons, countKind_nil, hinner.settled, hclose, if_true,
    reduceCtorEq, if_false] at hcovered
  omega

/-- Tokens have at most one closing parenthesis that matches no call before it. -/
theorem unique {inner inner' rest rest' : List Token} {close close' : Token}
    (hinner : Enclosed inner) (hinner' : Enclosed inner') (hclose : close.kind = .close)
    (hclose' : close'.kind = .close) (heq : inner ++ close :: rest = inner' ++ close' :: rest') :
    inner = inner' ∧ close :: rest = close' :: rest' := by
  have hlength : inner.length = inner'.length :=
    Nat.le_antisymm (hinner'.length_le hinner hclose' heq.symm)
      (hinner.length_le hinner' hclose heq)
  exact List.append_inj heq hlength

end Enclosed

variable {token : Token}

theorem Ordinary.opener (htoken : token.Ordinary) (hkind : token.kind = .call) : token.Opener :=
  ⟨hkind, htoken.isControl⟩

theorem Ordinary.isLiteral_eq_false (htoken : token.Ordinary) : token.isLiteral = false := by
  rw [← Bool.not_eq_true]
  intro hliteral
  have hrole := role_of_isLiteral hliteral
  rcases htoken with hstored | ⟨keyword, hkeyword, -⟩
  · cases hstored.symm.trans hrole
  · cases hkeyword.symm.trans hrole

theorem Ordinary.kind_eq_word (htoken : token.Ordinary) (hkind : token.kind ≠ .call) :
    token.kind = .word := by
  have hliteral := htoken.isLiteral_eq_false
  obtain ⟨kind, text, span⟩ := token
  cases kind <;> simp_all [Ordinary, role, isLiteral]

theorem Ordinary.bareWord (htoken : token.Ordinary) (hkind : token.kind ≠ .call) :
    token.BareWord := by
  have hword := htoken.kind_eq_word hkind
  refine ⟨hword, ?_, fun keyword hkeyword => ?_⟩
  · simpa [isLiteral, hword] using htoken.isLiteral_eq_false
  · have hcontrol := htoken.isControl keyword hkeyword
    cases keyword <;> first | rfl | cases hcontrol

theorem kind_of_isLiteral (hliteral : token.isLiteral = true) :
    token.kind = .word ∨ token.kind = .quoted := by
  grind [isLiteral]

end Token

namespace Grammar

open Token

/-- Arguments close all calls among them. -/
theorem Arguments.enclosed {tokens : List Token} (harguments : Arguments tokens) :
    Enclosed tokens := by
  induction harguments with
  | nil => exact .nil
  | comma htoken _ ih => exact ih.cons (by simp [htoken]) (by simp [htoken])
  | literal htoken _ ih =>
      apply ih.cons
      · rcases kind_of_isLiteral htoken with hkind | hkind <;> simp [hkind]
      · rcases kind_of_isLiteral htoken with hkind | hkind <;> simp [hkind]
  | word htoken _ ih => exact ih.cons (by simp [htoken.kind]) (by simp [htoken.kind])
  | @call opener close inner rest hopener _ hclose _ ihinner ihrest =>
      have hcall := (ihinner.call hopener.kind hclose).append ihrest
      rwa [List.cons_append, List.append_assoc, List.singleton_append] at hcall

/-- The commas of arguments count only for the call that they belong to. -/
theorem Arguments.ownCommas_append {tokens : List Token} (harguments : Arguments tokens)
    (depth : Nat) (rest : List Token) :
    ownCommas (depth + 1) (tokens ++ rest) = ownCommas (depth + 1) rest := by
  induction harguments generalizing depth rest with
  | nil => rfl
  | comma htoken _ ih => simp [ownCommas, htoken, ih]
  | literal htoken _ ih =>
      rcases kind_of_isLiteral htoken with hkind | hkind <;> simp [ownCommas, hkind, ih]
  | word htoken _ ih => simp [ownCommas, htoken.kind, ih]
  | call hopener _ hclose _ ihinner ihrest =>
      simp [ownCommas, hopener.kind, ihinner, hclose, ihrest]

end Grammar

namespace Exec

variable {S : Type} [Store S]

/-! ## Commands whose arguments are known -/

/-- What an ordinary command does once its arguments have been evaluated. A stored script is looked
up in `before`, the store as it was when the command was met. -/
def perform (run : Runner S) (before : S) (command : Token) (values : List String) :
    Exec S Unit :=
  match command.role with
  | .keyword keyword => do
    checkArity command keyword.arity values.length
    builtin run keyword command.span values
  | .stored =>
    if command.kind = .call then
      match Store.entriesFrom before command.text with
      | [] => fail (.unknownCommand command.text) command.span
      | (key, script) :: _ => do
        let names := parameters ((Store.afterStart? command.text key).getD [])
        checkArity command (.exactly names.length) values.length
        nested run (bindParameters script (names.zip values))
    else
      let script := Store.get before command.text
      if script.isEmpty then fail (.unknownCommand command.text) command.span
      else nested run script
  | _ => throw .defect

/-- Evaluating the arguments of a command and then performing it succeeds when both parts do. -/
theorem arguments_bind_eq_ok_iff {budget : Nat} {run : Runner S} {before : S} {token : Token}
    {rest left : List Token} {frame after : Frame S} :
    (do
      let (values, others) ← arguments budget run token rest
      perform run before token values
      return others : Exec S (List Token)) frame = .ok left after ↔
    ∃ values middle, arguments budget run token rest frame = .ok (values, left) middle ∧
      perform run before token values middle = .ok () after := by
  rw [bind_eq_ok_iff]
  constructor
  · rintro ⟨⟨values, others⟩, middle, harguments, hrest⟩
    obtain ⟨_, final, hperform, hreturn⟩ := bind_eq_ok_iff.mp hrest
    cases hreturn
    exact ⟨values, middle, harguments, hperform⟩
  · rintro ⟨values, middle, harguments, hperform⟩
    exact ⟨_, middle, harguments, bind_eq_ok_iff.mpr ⟨(), after, hperform, rfl⟩⟩

/-- An ordinary command succeeds when its arguments do and it does so on them. -/
theorem commandWith_eq_ok_iff {budget : Nat} {run : Runner S} {token : Token}
    (htoken : token.Ordinary) {rest left : List Token} {frame after : Frame S} :
    commandWith budget run (token :: rest) frame = .ok left after ↔
      ∃ values middle, arguments budget run token rest frame = .ok (values, left) middle ∧
        perform run frame.engine.store token values middle = .ok () after := by
  have hstore (next : S → Exec S (List Token)) :
      (store >>= next) frame = next frame.engine.store frame := rfl
  rw [← arguments_bind_eq_ok_iff]
  rcases htoken with hrole | ⟨keyword, hrole, hcontrol⟩
  · simp only [commandWith, hrole, storedCall, hstore, perform]
    by_cases hcall : token.kind = .call
    · simp only [hcall, if_true]
      cases Store.entriesFrom frame.engine.store token.text with
      | nil =>
          -- Without a script to run, the call fails before its arguments are evaluated.
          constructor
          · rintro ⟨⟩
          · intro hok
            obtain ⟨_, _, _, hrest⟩ := bind_eq_ok_iff.mp hok
            obtain ⟨_, _, hfail, _⟩ := bind_eq_ok_iff.mp hrest
            cases hfail
      | cons entry others => simp only [bind_assoc]
    · simp only [hcall, if_false, arguments, pure_bind]
      split <;> rfl
  · simp only [commandWith_ordinary budget run hrole hcontrol, builtinCall, perform, hrole,
      bind_assoc]

theorem perform_follows {tolerance : Tolerance} {run run' : Runner S}
    (hnested : ∀ script, Follows tolerance Eq (nested run script) (nested run' script))
    (before : S) (command : Token) (values : List String) :
    Follows tolerance Eq (perform run before command values)
      (perform run' before command values) := by
  unfold perform
  split
  · refine .bind_eq (.refl _) fun _ => ?_
    exact builtin_follows hnested _ (tolerance.near_refl _) values
  · split
    · split
      · exact .refl _
      · exact .bind_eq (.refl _) fun _ => hnested _
    · dsimp only
      split
      · exact .refl _
      · exact hnested _
  · exact .refl _

/-- A command does not succeed in two ways, whatever the fuel. -/
theorem perform_unique {fuel fuel' : Nat} {before : S} {command : Token} {values : List String}
    {frame after after' : Frame S}
    (hfirst : perform (Exec.command fuel) before command values frame = .ok () after)
    (hsecond : perform (Exec.command fuel') before command values frame = .ok () after') :
    after = after' := by
  have hmore {fuel more : Nat} (hle : fuel ≤ more) :
      Follows (S := S) .fuel Eq (perform (Exec.command fuel) before command values)
        (perform (Exec.command more) before command values) := by
    apply perform_follows
    intro script
    exact .nested script (sequenceAll_follows (command_follows_of_le hle) _)
  rcases Nat.le_total fuel fuel' with hle | hle
  · obtain ⟨_, hsame, -⟩ := (hmore hle).of_ok hfirst
    cases hsame.symm.trans hsecond
    rfl
  · obtain ⟨_, hsame, -⟩ := (hmore hle).of_ok hsecond
    cases hsame.symm.trans hfirst
    rfl

omit [Store S] in
theorem capture_eq_ok_iff {α : Type} {action : Exec S α} {engine : Engine S} {out text : String}
    {value : α} {after : Frame S} :
    capture action ⟨engine, out⟩ = .ok (value, text) after ↔
      ∃ engine', action ⟨engine, ""⟩ = .ok value ⟨engine', text⟩ ∧ after = ⟨engine', out⟩ := by
  rw [capture]
  cases action ⟨engine, ""⟩ with
  | ok value' middle =>
      constructor
      · rintro ⟨⟩
        exact ⟨middle.engine, rfl, rfl⟩
      · rintro ⟨engine', ⟨⟩, rfl⟩
        rfl
  | error stop middle => simp

/-! ## The values of arguments -/

/-- The tokens between the parentheses of a call have some values and leave the engine in some
state. Parts are taken from left to right; a literal stands for its value, and a command for what it
writes once its own arguments have been evaluated. -/
inductive Evaluates : Engine S → List Token → List String → Engine S → Prop
  | nil {engine : Engine S} : Evaluates engine [] [""] engine
  | comma {engine final : Engine S} {token : Token} {rest : List Token} {values : List String}
      (htoken : token.kind = .comma) (hrest : Evaluates engine rest values final) :
      Evaluates engine (token :: rest) ("" :: values) final
  | literal {engine final : Engine S} {token : Token} {rest : List Token} {text : String}
      {values : List String} (htoken : token.isLiteral = true)
      (hrest : Evaluates engine rest (text :: values) final) :
      Evaluates engine (token :: rest) ((token.literalValue ++ text) :: values) final
  | word {engine after final : Engine S} {fuel : Nat} {token : Token} {rest : List Token}
      {written text : String} {values : List String} (htoken : token.BareWord)
      (hperform : perform (command fuel) engine.store token [] ⟨engine, ""⟩ =
        .ok () ⟨after, written⟩)
      (hrest : Evaluates after rest (text :: values) final) :
      Evaluates engine (token :: rest) ((written ++ text) :: values) final
  | call {engine between after final : Engine S} {fuel : Nat} {opener close : Token}
      {inner rest : List Token} {given values : List String} {written text : String}
      (hopener : opener.Opener) (hinner : Evaluates engine inner given between)
      (hclose : close.kind = .close)
      (hperform : perform (command fuel) engine.store opener (if inner = [] then [] else given)
        ⟨between, ""⟩ = .ok () ⟨after, written⟩)
      (hrest : Evaluates after rest (text :: values) final) :
      Evaluates engine (opener :: (inner ++ close :: rest)) ((written ++ text) :: values) final

namespace Evaluates

variable {engine final : Engine S} {tokens : List Token} {values : List String}

theorem arguments (hvalues : Evaluates engine tokens values final) : Arguments tokens := by
  induction hvalues with
  | nil => exact .nil
  | comma htoken _ ih => exact .comma htoken ih
  | literal htoken _ ih => exact .literal htoken ih
  | word htoken _ _ ih => exact .word htoken ih
  | call hopener _ hclose _ _ ihinner ihrest => exact .call hopener ihinner hclose ihrest

/-- There is one value more than there are commas that belong to the call. -/
theorem length_eq (hvalues : Evaluates engine tokens values final) :
    values.length = Token.ownCommas 0 tokens + 1 := by
  induction hvalues with
  | nil => rfl
  | comma htoken _ ih => simp [Token.ownCommas, htoken, ih, Nat.add_comm]
  | literal htoken _ ih =>
      rcases Token.kind_of_isLiteral htoken with hkind | hkind <;>
        simpa [Token.ownCommas, hkind] using ih
  | word htoken _ _ ih => simpa [Token.ownCommas, htoken.kind] using ih
  | call hopener hinner hclose _ _ _ ihrest =>
      have hcommas := hinner.arguments.ownCommas_append 0
      simpa [Token.ownCommas, hopener.kind, hclose, hcommas] using ihrest

/-- Tokens have one list of values and lead to one engine. -/
theorem unique (hvalues : Evaluates engine tokens values final) {values' : List String}
    {final' : Engine S} (hvalues' : Evaluates engine tokens values' final') :
    values = values' ∧ final = final' := by
  induction hvalues generalizing values' final' with
  | nil =>
      cases hvalues'
      exact ⟨rfl, rfl⟩
  | comma htoken _ ih =>
      cases hvalues' with
      | comma _ hrest =>
          obtain ⟨rfl, rfl⟩ := ih hrest
          exact ⟨rfl, rfl⟩
      | literal hliteral => simp [Token.isLiteral, htoken] at hliteral
      | word hword => cases htoken.symm.trans hword.kind
      | call hopener => cases htoken.symm.trans hopener.kind
  | literal htoken _ ih =>
      cases hvalues' with
      | comma hcomma => simp [Token.isLiteral, hcomma] at htoken
      | literal _ hrest =>
          obtain ⟨hsame, rfl⟩ := ih hrest
          cases hsame
          exact ⟨rfl, rfl⟩
      | word hword => simp [Token.isLiteral, hword.kind, hword.hasAt] at htoken
      | call hopener => simp [Token.isLiteral, hopener.kind] at htoken
  | word htoken hperform _ ih =>
      cases hvalues' with
      | comma hcomma => cases hcomma.symm.trans htoken.kind
      | literal hliteral => simp [Token.isLiteral, htoken.kind, htoken.hasAt] at hliteral
      | word _ hperform' hrest =>
          cases perform_unique hperform hperform'
          obtain ⟨hsame, rfl⟩ := ih hrest
          cases hsame
          exact ⟨rfl, rfl⟩
      | call hopener => cases hopener.kind.symm.trans htoken.kind
  | @call _ _ _ _ _ opener close inner rest _ _ _ _ hopener hinner hclose hperform _ ihinner
      ihrest =>
      generalize htokens : opener :: (inner ++ close :: rest) = tokens at hvalues'
      cases hvalues' with
      | nil => cases htokens
      | comma hcomma =>
          cases htokens
          cases hcomma.symm.trans hopener.kind
      | literal hliteral =>
          cases htokens
          simp [Token.isLiteral, hopener.kind] at hliteral
      | word hword =>
          cases htokens
          cases hword.kind.symm.trans hopener.kind
      | call _ hinner' hclose' hperform' hrest' =>
          -- Both evaluations find the same closing parenthesis.
          obtain ⟨rfl, hafter⟩ := List.cons.inj htokens
          obtain ⟨rfl, htail⟩ := hinner.arguments.enclosed.unique hinner'.arguments.enclosed
            hclose hclose' hafter
          cases htail
          obtain ⟨rfl, rfl⟩ := ihinner hinner'
          cases perform_unique hperform hperform'
          obtain ⟨hsame, rfl⟩ := ihrest hrest'
          cases hsame
          exact ⟨rfl, rfl⟩

end Evaluates

/-! ## Runs of arguments -/

/-- Some tokens are one command. Alone or in front of any others it takes just these tokens, and it
evaluates as a part of an argument. -/
structure RunsAs (run : Runner S) (engine : Engine S) (piece : List Token) (written : String)
    (after : Engine S) : Prop where
  atom : Atom piece
  takes : ∀ tail, run (piece ++ tail) ⟨engine, ""⟩ = .ok tail ⟨after, written⟩
  evaluates : ∀ {tail text values final}, Evaluates after tail (text :: values) final →
    Evaluates engine (piece ++ tail) ((written ++ text) :: values) final

/-- A runner that takes ordinary commands as a whole. -/
def RunsPieces (run : Runner S) : Prop :=
  ∀ {token rest left engine after written}, token.Ordinary →
    run (token :: rest) ⟨engine, ""⟩ = .ok left ⟨after, written⟩ →
    ∃ more, rest = more ++ left ∧ RunsAs run engine (token :: more) written after

/-- Tokens begin with the rest of the arguments of a call, up to its closing parenthesis, and
evaluating it has some result. `part` and `begun` are as for `argumentsFrom`. -/
structure ArgumentsEnd (run : Runner S) (opener : Token) (budget : Nat) (part : String)
    (begun : Bool) (frame : Frame S) (inner : List Token) (close : Token) (values : List String)
    (final : Frame S) : Prop where
  kind : close.kind = .close
  takes : ∀ tail, argumentsFrom run opener budget part begun (inner ++ close :: tail) frame =
    .ok (values, tail) final
  out : final.out = frame.out
  evaluates : ∃ text others, Evaluates frame.engine inner (text :: others) final.engine ∧
    values = if inner = [] ∧ begun = false then [] else (part ++ text) :: others

omit [Store S] in
theorem argumentsFrom_of_ordinary (run : Runner S) (opener : Token) (budget : Nat) (part : String)
    (begun : Bool) {token : Token} (htoken : token.Ordinary) (rest : List Token) :
    argumentsFrom run opener (budget + 1) part begun (token :: rest) =
      capture (run (token :: rest)) >>= fun value =>
        argumentsFrom run opener budget (part ++ value.2) true value.1 := by
  rcases htoken with hrole | ⟨keyword, hrole, hcontrol⟩
  · simp only [argumentsFrom, hrole]
  · simp only [argumentsFrom, hrole, hcontrol, Bool.false_eq_true, if_false]

namespace ArgumentsEnd

variable {run : Runner S} {opener token close : Token} {budget : Nat} {part : String}
  {begun : Bool} {frame final : Frame S} {inner : List Token} {values : List String}

theorem nil (hrole : token.role = .close) :
    ArgumentsEnd run opener (budget + 1) part begun frame [] token
      (if begun then [part] else []) frame where
  kind := Token.kind_of_role_close hrole
  takes tail := by
    simp only [List.nil_append, argumentsFrom, hrole]
    rfl
  out := rfl
  evaluates := ⟨"", [], .nil, by cases begun <;> simp⟩

theorem comma (hrole : token.role = .comma)
    (hend : ArgumentsEnd run opener budget "" true frame inner close values final) :
    ArgumentsEnd run opener (budget + 1) part begun frame (token :: inner) close (part :: values)
      final where
  kind := hend.kind
  takes tail := by
    simp only [List.cons_append, argumentsFrom, hrole]
    exact bind_eq_ok_iff.mpr ⟨_, _, hend.takes tail, rfl⟩
  out := hend.out
  evaluates := by
    obtain ⟨text, others, hvalues, rfl⟩ := hend.evaluates
    exact ⟨"", text :: others, .comma (Token.kind_of_role_comma hrole) hvalues, by simp⟩

theorem literal {value : String} (hrole : token.role = .literal value)
    (hend : ArgumentsEnd run opener budget (part ++ value) true frame inner close values final) :
    ArgumentsEnd run opener (budget + 1) part begun frame (token :: inner) close values final where
  kind := hend.kind
  takes tail := by
    simp only [List.cons_append, argumentsFrom, hrole]
    exact hend.takes tail
  out := hend.out
  evaluates := by
    obtain ⟨text, others, hvalues, rfl⟩ := hend.evaluates
    have hliteral := Token.isLiteral_of_role hrole
    obtain rfl : token.literalValue = value := by
      cases hrole.symm.trans (Token.role_of_isLiteral hliteral)
      rfl
    exact ⟨_, others, .literal hliteral hvalues, by simp [String.append_assoc]⟩

theorem command {engine after : Engine S} {out written : String} {more : List Token}
    (htoken : token.Ordinary) (hruns : RunsAs run engine (token :: more) written after)
    (hend : ArgumentsEnd run opener budget (part ++ written) true ⟨after, out⟩ inner close values
      final) :
    ArgumentsEnd run opener (budget + 1) part begun ⟨engine, out⟩ (token :: more ++ inner) close
      values final where
  kind := hend.kind
  takes tail := by
    rw [List.append_assoc, List.cons_append, argumentsFrom_of_ordinary _ _ _ _ _ htoken]
    refine bind_eq_ok_iff.mpr ⟨_, _, capture_eq_ok_iff.mpr ⟨after, ?_, rfl⟩, hend.takes tail⟩
    exact hruns.takes (inner ++ close :: tail)
  out := hend.out
  evaluates := by
    obtain ⟨text, others, hvalues, rfl⟩ := hend.evaluates
    exact ⟨_, others, hruns.evaluates hvalues, by simp [String.append_assoc]⟩

end ArgumentsEnd

/-- Arguments that are evaluated end at a closing parenthesis. -/
theorem argumentsFrom_ends {run : Runner S} (hrun : RunsPieces run) {opener : Token}
    {budget : Nat} {part : String} {begun : Bool} {tokens left : List Token} {frame final : Frame S}
    {values : List String}
    (hok : argumentsFrom run opener budget part begun tokens frame = .ok (values, left) final) :
    ∃ inner close, tokens = inner ++ close :: left ∧
      ArgumentsEnd run opener budget part begun frame inner close values final := by
  induction budget generalizing part begun tokens frame values with
  | zero => cases hok
  | succ budget ih =>
      cases tokens with
      | nil => cases hok
      | cons token rest =>
          have hcommand (htoken : token.Ordinary) :
              ∃ inner close, token :: rest = inner ++ close :: left ∧
                ArgumentsEnd run opener (budget + 1) part begun frame inner close values final := by
            obtain ⟨engine, out⟩ := frame
            rw [argumentsFrom_of_ordinary _ _ _ _ _ htoken] at hok
            obtain ⟨⟨others, written⟩, middle, hcapture, hrest⟩ := bind_eq_ok_iff.mp hok
            obtain ⟨after, hpiece, rfl⟩ := capture_eq_ok_iff.mp hcapture
            obtain ⟨more, rfl, hruns⟩ := hrun htoken hpiece
            obtain ⟨inner, close, rfl, hend⟩ := ih hrest
            exact ⟨token :: more ++ inner, close, by simp, .command htoken hruns hend⟩
          cases hrole : token.role with
          | comma =>
              simp only [argumentsFrom, hrole] at hok
              obtain ⟨⟨others, after⟩, middle, hrest, hreturn⟩ := bind_eq_ok_iff.mp hok
              cases hreturn
              obtain ⟨inner, close, rfl, hend⟩ := ih hrest
              exact ⟨token :: inner, close, rfl, .comma hrole hend⟩
          | close =>
              simp only [argumentsFrom, hrole] at hok
              cases hok
              exact ⟨[], token, rfl, .nil hrole⟩
          | literal value =>
              simp only [argumentsFrom, hrole] at hok
              obtain ⟨inner, close, rfl, hend⟩ := ih hok
              exact ⟨token :: inner, close, rfl, .literal hrole hend⟩
          | keyword keyword =>
              cases hcontrol : keyword.isControl with
              | true =>
                  simp only [argumentsFrom, hrole, hcontrol, if_true] at hok
                  cases hok
              | false => exact hcommand (.inr ⟨keyword, hrole, hcontrol⟩)
          | stored => exact hcommand (.inl hrole)

/-- Every command takes its arguments as a whole. -/
theorem command_runsPieces (fuel : Nat) : RunsPieces (S := S) (command fuel) := by
  induction fuel with
  | zero =>
      intro token rest left engine after written htoken hok
      cases hok
  | succ fuel ih =>
      intro token rest left engine after written htoken hok
      obtain ⟨values, middle, harguments, hperform⟩ := (commandWith_eq_ok_iff htoken).mp hok
      by_cases hcall : token.kind = .call
      · rw [arguments, if_pos hcall] at harguments
        obtain ⟨inner, close, rfl, hend⟩ := argumentsFrom_ends ih harguments
        obtain ⟨text, others, hvalues, hgiven⟩ := hend.evaluates
        obtain ⟨between, out⟩ := middle
        obtain rfl : out = "" := hend.out
        have hgiven : values = if inner = [] then [] else ("" ++ text) :: others := by
          simpa using hgiven
        refine ⟨inner ++ [close], by simp, ?_, fun tail => ?_, fun htail => ?_⟩
        · exact .call (htoken.opener hcall) hvalues.arguments hend.kind
        · rw [List.cons_append, List.append_assoc, List.singleton_append]
          refine (commandWith_eq_ok_iff htoken).mpr ⟨values, _, ?_, hperform⟩
          rw [arguments, if_pos hcall]
          exact hend.takes tail
        · rw [List.cons_append, List.append_assoc, List.singleton_append]
          rw [hgiven, String.empty_append] at hperform
          exact .call (htoken.opener hcall) hvalues hend.kind hperform htail
      · rw [arguments, if_neg hcall] at harguments
        cases harguments
        refine ⟨[], rfl, .word (htoken.bareWord hcall), fun tail => ?_, fun htail => ?_⟩
        · refine (commandWith_eq_ok_iff htoken).mpr ⟨[], _, ?_, hperform⟩
          rw [arguments, if_neg hcall]
          rfl
        · exact .word (htoken.bareWord hcall) hperform htail

/-- Evaluating the arguments of a call stops just after the closing parenthesis that matches the
call: the first place at which more parentheses have been closed than calls have been opened. A call
without anything between its parentheses has no arguments; another call has one argument more than
commas of its own. The arguments are the texts of their parts, each evaluated once and from left to
right, inner calls before the calls they belong to, and the engine is left as these evaluations
leave it; there is no other way to evaluate them. -/
theorem arguments_follow_parentheses {budget fuel : Nat} {opener : Token} {rest left : List Token}
    {frame final : Frame S} {values : List String} (hopener : opener.kind = .call)
    (hok : arguments budget (command fuel) opener rest frame = .ok (values, left) final) :
    ∃ inner close, rest = inner ++ close :: left ∧ close.kind = .close ∧
      (∀ length ≤ inner.length,
        Token.countKind .close (rest.take length) ≤ Token.countKind .call (rest.take length)) ∧
      Token.countKind .call (inner ++ [close]) < Token.countKind .close (inner ++ [close]) ∧
      values.length = (if inner = [] then 0 else Token.ownCommas 0 inner + 1) ∧
      (∃ texts, Evaluates frame.engine inner texts final.engine ∧
        (∀ texts' engine, Evaluates frame.engine inner texts' engine →
          texts' = texts ∧ engine = final.engine) ∧
        values = if inner = [] then [] else texts) ∧
      final.out = frame.out := by
  rw [arguments, if_pos hopener] at hok
  obtain ⟨inner, close, rfl, hend⟩ := argumentsFrom_ends (command_runsPieces fuel) hok
  obtain ⟨text, others, hvalues, hgiven⟩ := hend.evaluates
  have hgiven : values = if inner = [] then [] else text :: others := by simpa using hgiven
  have henclosed := hvalues.arguments.enclosed
  refine ⟨inner, close, rfl, hend.kind, fun length hlength => ?_, ?_, ?_, ?_, hend.out⟩
  · rw [List.take_append_of_le_length hlength]
    exact henclosed.covered length
  · simp [Token.countKind_cons, henclosed.settled, hend.kind]
  · rw [hgiven]
    split
    · rfl
    · exact hvalues.length_eq
  · exact ⟨_, hvalues, fun _ _ hother => hother.unique hvalues, hgiven⟩

/-- In `@write(a(@concat(b,c),)d` the word `a(` opens nothing and the comma of the inner call is not
one of the outer call, whose second argument is empty. -/
theorem arguments_of_nested_call :
    let opener : Token := ⟨.call, "@write(", ⟨0, 7⟩⟩
    let inner : List Token :=
      [⟨.word, "a(", ⟨7, 2⟩⟩, ⟨.call, "@concat(", ⟨9, 8⟩⟩, ⟨.word, "b", ⟨17, 1⟩⟩,
        ⟨.comma, ",", ⟨18, 1⟩⟩, ⟨.word, "c", ⟨19, 1⟩⟩, ⟨.close, ")", ⟨20, 1⟩⟩,
        ⟨.comma, ",", ⟨21, 1⟩⟩]
    let rest : List Token := inner ++ [⟨.close, ")", ⟨22, 1⟩⟩, ⟨.word, "d", ⟨23, 1⟩⟩]
    opener.kind = .call ∧
      arguments 9 (command 5) opener rest Frame.initial =
        .ok (["a(bc", ""], [⟨.word, "d", ⟨23, 1⟩⟩]) Frame.initial ∧
      ∃ found close, rest = found ++ close :: [⟨.word, "d", ⟨23, 1⟩⟩] ∧ close.kind = .close ∧
        2 = (if found = [] then 0 else Token.ownCommas 0 found + 1) ∧
        ∃ texts, Evaluates Frame.initial.engine found texts Frame.initial.engine ∧
          ["a(bc", ""] = if found = [] then [] else texts := by
  intro opener inner rest
  have hok : arguments 9 (command 5) opener rest Frame.initial =
      .ok (["a(bc", ""], [⟨.word, "d", ⟨23, 1⟩⟩]) Frame.initial := by with_unfolding_all rfl
  obtain ⟨found, close, hrest, hclose, -, -, hlength, ⟨texts, hvalues, -, hgiven⟩, -⟩ :=
    arguments_follow_parentheses (rfl : opener.kind = .call) hok
  exact ⟨rfl, hok, found, close, hrest, hclose, hlength, texts, hvalues, hgiven⟩

end Exec

end AtScript
