import AtScript.Proofs.Context
import AtScript.Proofs.Judgement
import AtScript.Proofs.Literals
import AtScript.Proofs.Places
import AtScript.Proofs.StoreLaws

/-! # Calls with literal arguments

A keyword that is called with quoted texts as its arguments runs on these texts, whatever characters
they have. So every text can be written by a script, and every value can be stored under every key
and read back.
-/

namespace AtScript

/-- A keyword that is only called, and whose spelling is read as that call. -/
def Keyword.Callable (keyword : Keyword) : Prop :=
  keyword.entry.form = .call ∧ keyword.isControl = false ∧
    keyword.name.toList.all Token.continuesWord = true ∧
    Text.lower keyword.spelling = keyword.spelling ∧
    Token.role ⟨.call, keyword.spelling, default⟩ = .keyword keyword

instance (keyword : Keyword) : Decidable keyword.Callable :=
  inferInstanceAs (Decidable (_ ∧ _))

/-! ## Their tokens -/

namespace Token

/-- The arguments of a call, with the parenthesis that closes it. -/
def literals : String → List String → List Token
  | value, [] => [ofLiteral value, ⟨.close, ")", default⟩]
  | value, next :: others => ofLiteral value :: ⟨.comma, ",", default⟩ :: literals next others

/-- How a script spells the arguments of a call. -/
def literalsText : String → List String → String
  | value, [] => Value.quote value ++ ")"
  | value, next :: others => Value.quote value ++ ("," ++ literalsText next others)

/-- The tokens of a call with literal arguments. -/
def literalCall (keyword : Keyword) (value : String) (others : List String) : List Token :=
  ⟨.call, keyword.spelling, default⟩ :: literals value others

theorem role_ofLiteral (value : String) : (ofLiteral value).role = .literal value :=
  congrArg Role.literal (literalValue_ofLiteral value)

theorem readsAs_literalsText (value : String) (others : List String) :
    ReadsAs (literalsText value others) ((literals value others).map look) := by
  induction others generalizing value with
  | nil => exact (readsAs_quote value).append readsAs_close
  | cons next others ih =>
      apply (readsAs_quote value).append
      exact readsAs_comma.append (ih next)

theorem readsAs_spelling {keyword : Keyword} (hcall : keyword.Callable) :
    ReadsAs keyword.spelling [(.call, keyword.spelling)] := by
  obtain ⟨hform, -, hname, hlower, -⟩ := hcall
  have hspelling : keyword.spelling = String.ofList ('@' :: (keyword.name.toList ++ ['('])) := by
    apply String.toList_inj.mp
    simp [Keyword.spelling, hform]
  have hspelled : Spelled ⟨.call, keyword.spelling, default⟩ := by
    rw [hspelling] at hlower ⊢
    exact .call (List.all_eq_true.mp hname) hlower
  have hreads := ReadsAs.spelled hspelled (Bool.false_and _)
  exact hreads

/-- A call with literal arguments is read as its tokens. -/
theorem readsAs_literalCall {keyword : Keyword} (hcall : keyword.Callable) (value : String)
    (others : List String) :
    ReadsAs (keyword.spelling ++ literalsText value others)
      ((literalCall keyword value others).map look) :=
  (readsAs_spelling hcall).append (readsAs_literalsText value others)

end Token

/-! ## Running them -/

namespace Exec

variable {S : Type}

/-- The arguments are the texts that the literals denote. -/
theorem argumentsFrom_literals (run : Runner S) (opener : Token) {budget : Nat} (begun : Bool)
    (value : String) (others : List String) (hbudget : 2 * others.length + 2 ≤ budget)
    (rest : List Token) (frame : Frame S) :
    argumentsFrom run opener budget "" begun (Token.literals value others ++ rest) frame =
      .ok (value :: others, rest) frame := by
  induction others generalizing value budget begun with
  | nil =>
      obtain ⟨budget, rfl⟩ := Nat.exists_eq_add_of_le' hbudget
      have hclose : Token.role ⟨.close, ")", default⟩ = .close := rfl
      simp only [Token.literals, List.cons_append, argumentsFrom, Token.role_ofLiteral, hclose,
        String.empty_append, if_true]
      rfl
  | cons next others ih =>
      rw [List.length_cons] at hbudget
      have htwo : 2 ≤ budget := by omega
      obtain ⟨budget, rfl⟩ := Nat.exists_eq_add_of_le' htwo
      have hcomma : Token.role ⟨.comma, ",", default⟩ = .comma := rfl
      simp only [Token.literals, List.cons_append, argumentsFrom, Token.role_ofLiteral, hcomma,
        bind_apply]
      rw [ih true next (by omega), String.empty_append]
      rfl

theorem eq_ok_of_ending {result : EStateM.Result (Stop RunError) (Frame S) Unit}
    {frame : Frame S} (hending : ending result = (frame, .ok ())) : result = .ok () frame := by
  cases result with
  | ok value after =>
      cases hending
      rfl
  | error stop after => cases hending

variable [Store S]

/-- A call runs its keyword on the texts and is followed by what comes after it. -/
theorem command_literalCall {fuel : Nat} {keyword : Keyword} (hcall : keyword.Callable)
    {value : String} {others : List String}
    (harity : keyword.arity.accepts (value :: others).length = true)
    (hfuel : 2 * others.length + 2 ≤ fuel) {frame after : Frame S}
    (hbuiltin : builtin (command fuel) keyword default (value :: others) frame = .ok () after)
    (rest : List Token) :
    command (fuel + 1) (Token.literalCall keyword value others ++ rest) frame =
      .ok rest after := by
  obtain ⟨-, hcontrol, -, -, hrole⟩ := hcall
  rw [Token.literalCall, List.cons_append, command, commandWith_ordinary _ _ hrole hcontrol,
    builtinCall, bind_apply, arguments, if_pos rfl,
    argumentsFrom_literals _ _ _ _ _ hfuel]
  simp only [checkArity, harity, if_true, bind_apply]
  rw [show (pure () : Exec S Unit) frame = .ok () frame from rfl]
  simp only [hbuiltin]
  rfl

theorem sequenceAll_literalCall {fuel : Nat} {keyword : Keyword} (hcall : keyword.Callable)
    {value : String} {others : List String}
    (harity : keyword.arity.accepts (value :: others).length = true)
    (hfuel : 2 * others.length + 2 ≤ fuel) {frame after : Frame S}
    (hbuiltin : builtin (command fuel) keyword default (value :: others) frame = .ok () after)
    (rest : List Token) :
    sequenceAll (command (fuel + 1)) (Token.literalCall keyword value others ++ rest) frame =
      sequenceAll (command (fuel + 1)) rest after :=
  sequenceAll_of_command (command_advances (fuel + 1))
    (command_literalCall hcall harity hfuel hbuiltin rest)

theorem builtin_write (run : Runner S) (span : Span) (text : String) (frame : Frame S) :
    builtin run .write span [text] frame = .ok () (frame.write text) := by
  simp only [builtin, Primitive.run, String.join, List.foldl_cons, List.foldl_nil,
    String.empty_append]
  rfl

theorem builtin_get (run : Runner S) (span : Span) (key : String) (frame : Frame S) :
    builtin run .get span [key] frame =
      .ok () (frame.write (Store.get frame.engine.store key)) := rfl

end Exec

namespace Engine

variable {S : Type} [Store S]

/-- A script does what any tokens that look like its own do, if these start with a call. -/
theorem runWithin_of_looks {fuel : Nat} {engine after : Engine S} {script out text : String}
    {span : Span} {tokens : List Token} (hlimit : Frame.exceededLimit? ⟨engine, ""⟩ = none)
    (hlooks : (Token.scan script).map Token.look = (⟨.call, text, span⟩ :: tokens).map Token.look)
    (htokens : Exec.sequenceAll (Exec.command fuel) (⟨.call, text, span⟩ :: tokens)
      (Frame.enter ⟨engine, ""⟩) = .ok () (Frame.enter ⟨after, out⟩)) :
    engine.runWithin fuel script = ⟨after, some out, .ok ()⟩ := by
  have hnull : ¬Value.isNull script = true := by
    rw [Token.isNull_iff_looks, hlooks]
    simp [Token.look]
  have hnested : Exec.nested (Exec.command fuel) script ⟨engine, ""⟩ = .ok () ⟨after, out⟩ := by
    apply Exec.eq_ok_of_ending
    rw [Exec.ending_nested _ _ hlimit, Exec.ending_sequenceAll_of_looks fuel hlooks, htokens]
    rfl
  rw [runWithin, if_neg hnull, hnested]

/-- A script that is a call with literal arguments. -/
theorem runWithin_literalCall {fuel : Nat} {keyword : Keyword} (hcall : keyword.Callable)
    {value : String} {others : List String}
    (harity : keyword.arity.accepts (value :: others).length = true)
    (hfuel : 2 * others.length + 2 ≤ fuel) {engine after : Engine S} {out : String}
    (hlimit : Frame.exceededLimit? ⟨engine, ""⟩ = none)
    (hbuiltin : Exec.builtin (Exec.command fuel) keyword default (value :: others)
      (Frame.enter ⟨engine, ""⟩) = .ok () (Frame.enter ⟨after, out⟩)) :
    engine.runWithin (fuel + 1) (keyword.spelling ++ Token.literalsText value others) =
      ⟨after, some out, .ok ()⟩ := by
  apply runWithin_of_looks hlimit (Token.readsAs_literalCall hcall value others).looks_scan
  have hsequence := Exec.sequenceAll_literalCall hcall harity hfuel hbuiltin []
  rw [List.append_nil] at hsequence
  exact hsequence

/-- A script that sets a key to a value and then gets it. -/
theorem runWithin_set_get {fuel : Nat} (hfuel : 4 ≤ fuel) {engine : Engine S}
    (hlimit : Frame.exceededLimit? ⟨engine, ""⟩ = none) (key value : String) {blank : String}
    (hblank : Text.isBlank blank = true) :
    let after : Engine S := { engine with store := Store.set engine.store key value }
    engine.runWithin (fuel + 1)
        (Keyword.set.spelling ++ Token.literalsText key [value] ++ blank ++
          (Keyword.get.spelling ++ Token.literalsText key [])) =
      ⟨after, some (Store.get after.store key), .ok ()⟩ := by
  intro after
  have hset : Keyword.set.Callable := by decide +kernel
  have hget : Keyword.get.Callable := by decide +kernel
  have hreads := ((Token.readsAs_literalCall hset key [value]).append (.blank hblank)).append
    (Token.readsAs_literalCall hget key [])
  rw [List.append_nil, ← List.map_append] at hreads
  apply runWithin_of_looks hlimit hreads.looks_scan
  have hsetting : Exec.builtin (Exec.command fuel) .set default [key, value]
      (Frame.enter ⟨engine, ""⟩) = .ok () (Frame.enter ⟨after, ""⟩) := rfl
  have hgetting := Exec.builtin_get (Exec.command fuel) default key (Frame.enter ⟨after, ""⟩)
  have harity : Keyword.set.arity.accepts [key, value].length = true := rfl
  have harity' : Keyword.get.arity.accepts [key].length = true := rfl
  have hfuel' : 2 * ([] : List String).length + 2 ≤ fuel := Nat.le_trans (by decide) hfuel
  have hlast := Exec.sequenceAll_literalCall hget harity' hfuel' hgetting []
  rw [List.append_nil] at hlast
  have hfirst := Exec.sequenceAll_literalCall hset harity hfuel hsetting
    (Token.literalCall .get key [])
  exact hfirst.trans hlast

end Engine

end AtScript
