import AtScript.Proofs.Acceptance
import AtScript.Proofs.CellKeys
import AtScript.Proofs.Context
import AtScript.Proofs.Output
import AtScript.Proofs.Rereading
import AtScript.Proofs.StoreLaws
import AtScript.Proofs.TokenSlices

/-! # Names of stored scripts

A command that is no keyword names a stored script. Reading puts the name in lower case, in all of
Unicode, before it is looked up: a bare name as a whole key, a call as the start of a key, where
only the case of ASCII letters does not matter. So a key answers to its own spelling as far as these
three notions of letter case agree on it.
-/

namespace AtScript

namespace Token

/-! ## The name that is read -/

theorem IsWord.isBlankChar {chars : List Char} (hword : IsWord chars) :
    ∀ c ∈ chars, Text.isBlankChar c = false := by
  obtain @⟨first, rest, hfirst, hrest⟩ := hword
  rw [List.forall_mem_cons]
  refine ⟨isBlankChar_of_startsWord hfirst, fun c hmem => ?_⟩
  exact isBlankChar_of_continuesWord (hrest c hmem)

/-- There is no white space inside a word. -/
theorem Lexeme.isBlankChar_of_word {start : Nat} {piece : List Char} {token : Token}
    (hlexeme : Lexeme start piece token) (hkind : token.kind = .word) :
    ∀ c ∈ piece, Text.isBlankChar c = false := by
  cases hlexeme with
  | comma | close | quoted => cases hkind
  | word hword => exact hword.isBlankChar
  | opening hword =>
      intro c hmem
      rcases List.mem_append.mp hmem with hmem | hmem
      · exact hword.isBlankChar c hmem
      · rw [List.mem_singleton.mp hmem]
        decide

/-- A script that is one bare command is read as its own text, trimmed and in lower case. -/
theorem text_eq_lower_trim {script : String} {token : Token} (hscan : scan script = [token])
    (hkind : token.kind = .word) (hat : token.hasAt = true) :
    token.text = Text.lower (Text.trim script) := by
  have hpieces := Scanner.scan_pieces script
  rw [hscan] at hpieces
  obtain ⟨start, lead, piece, trail, hchars, hlexeme, hlead, htrail⟩ :=
    hpieces.exists_of_word hkind
  have hslice := hlexeme.isSlice
  have hlowered : token.IsLowered := .inr ⟨hkind, hat⟩
  have htrim : Text.trim script = String.ofList piece := by
    apply String.toList_inj.mp
    rw [Text.toList_trim, hchars, String.toList_ofList]
    exact Text.trimChars_append hlead htrail hslice.nonempty (hlexeme.isBlankChar_of_word hkind)
  rw [hslice.text, if_pos hlowered, htrim]

theorem isCommand_of_word {token : Token} (hkind : token.kind = .word) (hat : token.hasAt = true) :
    token.isCommand = true := by
  rw [isCommand, hkind]
  exact hat

theorem role_eq_stored {token : Token} (hcommand : token.isCommand = true)
    (hkeyword : Keyword.ofToken? token = none) : token.role = .stored := by
  obtain ⟨kind, text, span⟩ := token
  cases kind with
  | call => simp [role, isLiteral, hkeyword]
  | word => simp_all [role, isLiteral, isCommand]
  | quoted | comma | close => cases hcommand

end Token

/-! ## Looking a name up -/

namespace Store

theorem isSome_afterStart?_iff {start key : String} (hat : start.front? = some '@') :
    (afterStart? start key).isSome ↔
      (Text.foldCase start).toList <+: (Text.foldCase key).toList := by
  rw [String.front?_eq] at hat
  rw [afterStart?, hat, beq_self_eq_true, if_pos rfl, Text.isSome_dropPrefixIgnoringCase?_iff,
    Text.foldCase, Text.foldCase, String.toList_map, String.toList_map]

end Store

namespace Exec

variable {S : Type} [Store S] {budget fuel : Nat} {run : Runner S} {command : Token}
  {rest : List Token} {frame : Frame S}

/-- Calls the stored script with a given key: evaluates the arguments, counts them, and runs the
script with the arguments in place of the parameters that the key declares. -/
def callKey (budget : Nat) (run : Runner S) (key script : String) (command : Token)
    (rest : List Token) : Exec S (List Token) := do
  let names := parameters ((Store.afterStart? command.text key).getD [])
  let (values, after) ← arguments budget run command rest
  checkArity command (.exactly names.length) values.length
  nested run (bindParameters script (names.zip values))
  return after

theorem storedCall_of_key (hkind : command.kind = .call) {key : String}
    (hkey : key ∈ Store.keys frame.engine.store)
    (hstart : (Store.afterStart? command.text key).isSome) :
    ∃ found ∈ Store.keys frame.engine.store, (Store.afterStart? command.text found).isSome ∧
      storedCall budget run command rest frame =
        callKey budget run found (Store.get frame.engine.store found) command rest frame := by
  have hmem : key ∈ (Store.entriesFrom frame.engine.store command.text).map Prod.fst :=
    (Store.mem_entriesFrom_iff _ _ _).mpr ⟨hkey, hstart⟩
  cases hentries : Store.entriesFrom frame.engine.store command.text with
  | nil => simp [hentries] at hmem
  | cons entry others =>
      obtain ⟨found, script⟩ := entry
      have hentry : (found, script) ∈ Store.entriesFrom frame.engine.store command.text := by
        rw [hentries]
        exact List.mem_cons_self
      obtain ⟨name, hname, heq⟩ := List.mem_map.mp hentry
      obtain ⟨rfl, rfl⟩ := Prod.mk.inj heq
      rw [List.mem_filter] at hname
      refine ⟨name, hname.1, hname.2, ?_⟩
      have hstore : (store : Exec S S) frame = .ok frame.engine.store frame := rfl
      rw [storedCall, bind_apply, hstore]
      simp only [hkind, if_true, hentries]
      rfl

theorem storedCall_word_of_value (hkind : command.kind = .word)
    (hvalue : Store.get frame.engine.store command.text ≠ "") :
    storedCall budget run command rest frame =
      (do nested run (Store.get frame.engine.store command.text); return rest) frame := by
  have hstore : (store : Exec S S) frame = .ok frame.engine.store frame := rfl
  rw [storedCall, bind_apply, hstore]
  simp only [hkind, reduceCtorEq, if_false, String.isEmpty_iff, hvalue]

theorem storedCall_word_of_empty (hkind : command.kind = .word)
    (hvalue : Store.get frame.engine.store command.text = "") :
    storedCall budget run command rest frame =
      .error (.failed (.atSpan (.unknownCommand command.text) command.span)) frame := by
  have hstore : (store : Exec S S) frame = .ok frame.engine.store frame := rfl
  rw [storedCall, bind_apply, hstore]
  simp only [hkind, reduceCtorEq, if_false, String.isEmpty_iff, hvalue, if_true]
  rfl

theorem command_stored (hcommand : command.isCommand = true)
    (hkeyword : Keyword.ofToken? command = none) :
    Exec.command (S := S) (fuel + 1) (command :: rest) =
      storedCall fuel (Exec.command fuel) command rest := by
  rw [Exec.command, commandWith, Token.role_eq_stored hcommand hkeyword]

omit [Store S] in
theorem sequenceAll_singleton (run : Runner S) (token : Token) :
    sequenceAll run [token] = run [token] >>= sequence run 0 := rfl

/-- A script that is one bare name does what the stored script does. -/
theorem sequenceAll_name (hkind : command.kind = .word) (hat : command.hasAt = true)
    (hkeyword : Keyword.ofToken? command = none)
    (hvalue : Store.get frame.engine.store command.text ≠ "") :
    sequenceAll (Exec.command (fuel + 1)) [command] frame =
      nested (Exec.command fuel) (Store.get frame.engine.store command.text) frame := by
  rw [sequenceAll_singleton, bind_apply,
    command_stored (Token.isCommand_of_word hkind hat) hkeyword,
    storedCall_word_of_value hkind hvalue, bind_apply]
  cases nested (Exec.command fuel) (Store.get frame.engine.store command.text) frame <;> rfl

theorem sequenceAll_unknown_name (hkind : command.kind = .word) (hat : command.hasAt = true)
    (hkeyword : Keyword.ofToken? command = none)
    (hvalue : Store.get frame.engine.store command.text = "") :
    sequenceAll (Exec.command (fuel + 1)) [command] frame =
      .error (.failed (.atSpan (.unknownCommand command.text) command.span)) frame := by
  rw [sequenceAll_singleton, bind_apply,
    command_stored (Token.isCommand_of_word hkind hat) hkeyword,
    storedCall_word_of_empty hkind hvalue]

end Exec

/-! ## Whole scripts -/

namespace Token

variable {script : String} {token : Token}

/-- A script that is one bare command is neither blank nor the null text. -/
theorem isNull_eq_false_of_command (hscan : scan script = [token]) (hat : token.hasAt = true) :
    Value.isNull script = false := by
  rw [← Bool.not_eq_true, isNull_iff_looks, hscan]
  intro hnull
  rcases hnull with hnil | ⟨word, hsame, hlook⟩
  · cases hnil
  · obtain ⟨-, rfl⟩ := Prod.mk.inj (List.singleton_inj.mp hlook)
    rw [hasAt, String.front?_eq, beq_iff_eq] at hat
    exact absurd (Value.isMark_of_mem_null hsame (List.mem_of_mem_head? hat)) (by decide)

theorem isBlank_eq_false_of_scan (hscan : scan script = [token]) : Text.isBlank script = false := by
  rw [← Bool.not_eq_true, isBlank_iff_looks, hscan]
  exact List.cons_ne_nil _ _

end Token

namespace Check

variable {S : Type} [Store S] {store : S} {script : String} {token : Token}

/-- A script that is one bare name is accepted when the name has a value. -/
theorem script_name (hscan : Token.scan script = [token]) (hkind : token.kind = .word)
    (hkeyword : Keyword.ofToken? token = none) (hvalue : Store.get store token.text ≠ "") :
    Check.script store script = [] := by
  have hinert := Token.inert_of_ofToken?_eq_none hkeyword
  rw [script_eq_nil_iff, hscan, tokens_eq_ok_iff, List.forall_mem_singleton]
  refine ⟨fun _ _ => isStored_of_word hkind hvalue, ?_, fun pairing => ?_⟩
  · simp [branchAfter?, hinert.branch?]
  · simp [Token.change_eq_zero_of_word pairing hkind hinert]

theorem script_unknown_name (hscan : Token.scan script = [token]) (hkind : token.kind = .word)
    (hat : token.hasAt = true) (hkeyword : Keyword.ofToken? token = none)
    (hvalue : Store.get store token.text = "") :
    Check.script store script =
      [⟨.unknownCommand token.text, some token.span, some script, none⟩] := by
  have hflaw : flaw? store 0 {} token = some (.unknownCommand token.text) := by
    simp [flaw?, hkeyword, isStored, hkind, hvalue, Token.isCommand_of_word hkind hat]
  simp only [Check.script, Token.isBlank_eq_false_of_scan hscan, Bool.false_eq_true, if_false,
    hscan, tokens, tokensFrom, hflaw]

end Check

namespace Engine

variable {S : Type} [Store S]

/-- What a script leaves behind that does nothing but run a stored one. -/
def runInside (fuel : Nat) (engine : Engine S) (script inner : String) : Outcome S :=
  match Exec.nested (Exec.command fuel) inner (Frame.enter ⟨engine, ""⟩) with
  | .ok () after => ⟨(after.atDepth engine.depth).engine, some after.out, .ok ()⟩
  | .error stop after =>
    ⟨(after.atDepth engine.depth).engine, some after.out, .error (stop.map (·.inScript script))⟩

variable {engine : Engine S} {script : String} {token : Token}

omit [Store S] in
theorem exceededLimit?_of_depth (hdepth : engine.depth = 0) (out : String) :
    Frame.exceededLimit? ⟨engine, out⟩ = none := by
  rw [Frame.exceededLimit?_eq_none_iff]
  intro limit _
  exact hdepth.le.trans limit.zero_le

/-- Running a script that is one bare name runs what is stored under that name. -/
theorem runWithin_name (hdepth : engine.depth = 0) (hscan : Token.scan script = [token])
    (hkind : token.kind = .word) (hat : token.hasAt = true)
    (hkeyword : Keyword.ofToken? token = none)
    (hvalue : Store.get engine.store token.text ≠ "") (fuel : Nat) :
    engine.runWithin (fuel + 1) script =
      engine.runInside fuel script (Store.get engine.store token.text) := by
  have hlimit := exceededLimit?_of_depth hdepth ""
  have htokens : Exec.sequenceAll (Exec.command (fuel + 1)) (Token.scan script)
      (Frame.enter ⟨engine, ""⟩) =
        Exec.nested (Exec.command fuel) (Store.get engine.store token.text)
          (Frame.enter ⟨engine, ""⟩) := by
    rw [hscan]
    exact Exec.sequenceAll_name hkind hat hkeyword hvalue
  rw [runWithin, Token.isNull_eq_false_of_command hscan hat, if_neg Bool.false_ne_true, runInside]
  cases Exec.nested_appends (Exec.command_appends fuel) (Store.get engine.store token.text)
      (Frame.enter ⟨engine, ""⟩).engine with
  | ok value after written hevolves hresult =>
      rw [hresult] at htokens ⊢
      rw [Exec.nested_ok_of_sameLevel hlimit htokens ⟨hevolves.options, hevolves.depth⟩]
      rfl
  | error stop after written hevolves hresult =>
      rw [hresult] at htokens ⊢
      rw [Exec.nested_error_of_sameLevel hlimit htokens ⟨hevolves.options, hevolves.depth⟩]
      rfl

theorem runWithin_unknown_name (hdepth : engine.depth = 0) (hscan : Token.scan script = [token])
    (hkind : token.kind = .word) (hat : token.hasAt = true)
    (hkeyword : Keyword.ofToken? token = none)
    (hvalue : Store.get engine.store token.text = "") (fuel : Nat) :
    engine.runWithin (fuel + 1) script = ⟨engine, some "",
      .error (.failed ⟨.unknownCommand token.text, some token.span, [script]⟩)⟩ := by
  have htokens : Exec.sequenceAll (Exec.command (fuel + 1)) (Token.scan script)
      (Frame.enter ⟨engine, ""⟩) =
        .error (.failed (.atSpan (.unknownCommand token.text) token.span))
          (Frame.enter ⟨engine, ""⟩) := by
    rw [hscan]
    exact Exec.sequenceAll_unknown_name hkind hat hkeyword hvalue
  rw [runWithin, Token.isNull_eq_false_of_command hscan hat, if_neg Bool.false_ne_true,
    Exec.nested_error_of_sameLevel (exceededLimit?_of_depth hdepth "") htokens (.refl _)]
  rfl

end Engine

namespace Check

variable {S : Type} [Store S] {store : S}

/-- A check that calls a name unknown has met a command of that name that is not in the store. -/
theorem exists_of_unknownCommand {index : Nat} {tally : Tally} {tokens : List Token}
    {finding : Finding} {name : String}
    (herror : tokensFrom store index tally tokens = .error finding)
    (hkind : finding.kind = .unknownCommand name) :
    ∃ token ∈ tokens, token.text = name ∧ ¬ IsKnown store token := by
  induction tokens generalizing index tally with
  | nil =>
      rw [tokensFrom, Tally.imbalance?] at herror
      split_ifs at herror <;> cases herror <;> cases hkind
  | cons token rest ih =>
      rw [tokensFrom] at herror
      split at herror
      next kind hflaw =>
        cases herror
        obtain rfl : kind = .unknownCommand name := hkind
        refine ⟨token, List.mem_cons_self, ?_⟩
        rw [flaw?] at hflaw
        cases hkeyword : Keyword.ofToken? token with
        | some keyword =>
            rw [hkeyword] at hflaw
            cases keyword <;> simp at hflaw
        | none =>
            simp only [hkeyword, Option.ite_none_right_eq_some, Bool.and_eq_true,
              Bool.not_eq_true', Option.some.injEq, FindingKind.unknownCommand.injEq] at hflaw
            obtain ⟨⟨hcommand, hstored⟩, htext⟩ := hflaw
            refine ⟨htext, fun hknown => ?_⟩
            rw [hknown hkeyword hcommand] at hstored
            cases hstored
      next =>
        obtain ⟨found, hmem, hfound⟩ := ih herror
        exact ⟨found, List.mem_cons_of_mem token hmem, hfound⟩

/-- No script is blamed for an unknown command when each of its commands of that name is known. -/
theorem kind_ne_unknownCommand {text name : String}
    (hknown : ∀ token ∈ Token.scan text, token.text = name → IsKnown store token) :
    ∀ finding ∈ script store text, finding.kind ≠ .unknownCommand name := by
  intro finding hmem hkind
  rw [script] at hmem
  split at hmem
  next => cases hmem
  next =>
    split at hmem
    next => cases hmem
    next error herror =>
      obtain rfl := List.mem_singleton.mp hmem
      obtain ⟨token, htoken, htext, hunknown⟩ := exists_of_unknownCommand herror hkind
      exact hunknown (hknown token htoken htext)

end Check

/-- In a script, a command with the text of a call is a call. -/
theorem Token.kind_eq_call {first second : String} {call token : Token} (hcall : call ∈ scan first)
    (hkind : call.kind = .call) (hmem : token ∈ scan second) (htext : token.text = call.text)
    (hcommand : token.isCommand = true) : token.kind = .call := by
  have hopens := (spelled_of_mem_scan hcall (by simp [hkind])).opensGroup_of_call hkind
  cases htoken : token.kind with
  | call => rfl
  | word =>
      have hat : token.hasAt = true := by simpa [isCommand, htoken] using hcommand
      have hcloses :=
        (spelled_of_mem_scan hmem (by simp [htoken])).opensGroup_of_command htoken hat
      simp only [opensGroup, hkind] at hopens
      simp only [opensGroup, htoken, htext, hopens, Bool.true_eq_false] at hcloses
  | quoted | comma | close => simp [isCommand, htoken] at hcommand

/-- Let a key be read as a single command that is no keyword. If it is a bare name, the script that
is this key looks up the key's own text, trimmed and in lower case: a check accepts it and a run
runs what is found there, if that is not empty, and both call the name unknown otherwise. If it is
a call that reading changes in the case of ASCII letters at most, then wherever a key goes on from
it, no check calls it unknown, and each such call runs a stored script whose key starts so. -/
theorem Engine.stored_names_answer_in_lower_case {S : Type} [Store S] (store : S) :
    (∀ (key : String) (token : Token), Token.scan key = [token] → token.kind = .word →
      token.hasAt = true → Keyword.ofToken? token = none →
        token.text = Text.lower (Text.trim key) ∧
        (Store.get store token.text ≠ "" → Check.script store key = [] ∧
          ∀ (engine : Engine S) (fuel : Nat), engine.store = store → engine.depth = 0 →
            engine.runWithin (fuel + 1) key =
              engine.runInside fuel key (Store.get store token.text)) ∧
        (Store.get store token.text = "" →
          Check.script store key =
            [⟨.unknownCommand token.text, some token.span, some key, none⟩] ∧
          ∀ (engine : Engine S) (fuel : Nat), engine.store = store → engine.depth = 0 →
            engine.runWithin (fuel + 1) key = ⟨engine, some "",
              .error (.failed ⟨.unknownCommand token.text, some token.span, [key]⟩)⟩)) ∧
    ∀ (head tail : String) (token : Token), Token.scan head = [token] → token.kind = .call →
      Keyword.ofToken? token = none → head ++ tail ∈ Store.keys store →
      Text.sameIgnoringCase token.text head = true →
        (∀ text, ∀ finding ∈ Check.script store text,
          finding.kind ≠ .unknownCommand token.text) ∧
        ∀ (call : Token) (rest : List Token) (frame : Frame S) (fuel : Nat),
          call.kind = .call → call.text = token.text → frame.engine.store = store →
            ∃ key ∈ Store.keys store,
              (Text.foldCase head).toList <+: (Text.foldCase key).toList ∧
              Exec.command (fuel + 1) (call :: rest) frame = Exec.callKey fuel
                (Exec.command fuel) key (Store.get store key) call rest frame := by
  constructor
  · intro key token hscan hkind hat hkeyword
    refine ⟨Token.text_eq_lower_trim hscan hkind hat, fun hvalue => ⟨?_, ?_⟩,
      fun hvalue => ⟨?_, ?_⟩⟩
    · exact Check.script_name hscan hkind hkeyword hvalue
    · rintro engine fuel rfl hdepth
      exact runWithin_name hdepth hscan hkind hat hkeyword hvalue fuel
    · exact Check.script_unknown_name hscan hkind hat hkeyword hvalue
    · rintro engine fuel rfl hdepth
      exact runWithin_unknown_name hdepth hscan hkind hat hkeyword hvalue fuel
  · intro head tail token hscan hkind hkeyword hkey hsame
    have hmem : token ∈ Token.scan head := by simp [hscan]
    have hat := (Token.spelled_of_mem_scan hmem (by simp [hkind])).hasAt_of_call hkind
    have hfront : token.text.front? = some '@' := by simpa [Token.hasAt] using hat
    have hfold : Text.foldCase token.text = Text.foldCase head :=
      (Text.sameIgnoringCase_iff _ _).mp hsame
    have hstart : (Store.afterStart? token.text (head ++ tail)).isSome := by
      rw [Store.isSome_afterStart?_iff hfront, hfold, Text.foldCase, Text.foldCase,
        String.toList_map, String.toList_map, String.toList_append, List.map_append]
      exact List.prefix_append _ _
    constructor
    · intro text
      apply Check.kind_ne_unknownCommand
      intro other hother htext _ hcommand
      have hcall := Token.kind_eq_call hmem hkind hother htext hcommand
      exact Check.isStored_of_call hcall hkey (htext ▸ hstart)
    · rintro call rest frame fuel hcall htext rfl
      have hcommand : call.isCommand = true := by
        simpa [Token.isCommand, hcall, Token.hasAt, htext] using hfront
      have hnone : Keyword.ofToken? call = none := by
        rw [Keyword.ofToken?, Token.hasAt, hcall, htext, ← hkind]
        exact hkeyword
      rw [← htext] at hstart hfront
      obtain ⟨key, hfound, hprefix, hresult⟩ := Exec.storedCall_of_key hcall hkey hstart
      refine ⟨key, hfound, ?_, ?_⟩
      · rw [← hfold, ← htext]
        exact (Store.isSome_afterStart?_iff hfront).mp hprefix
      · rw [Exec.command_stored hcommand hnone]
        exact hresult

/-- A bare name in capitals whose key is in lower case, and a call in lower case whose key has a
capital. -/
theorem Engine.stored_names_in_sample_store :
    let store := (Dictionary.empty.insert "@foo" "@write(hi)").insert "@Bar(x)" "@write($x)"
    Token.scan "@FOO" = [⟨.word, "@foo", ⟨0, 4⟩⟩] ∧ Store.get store "@foo" = "@write(hi)" ∧
      Check.script store "@FOO" = [] ∧
      (Engine.new store {}).runWithin 9 "@FOO" =
        (Engine.new store {}).runInside 8 "@FOO" (Store.get store "@foo") ∧
      Token.scan "@Bar(" = [⟨.call, "@bar(", ⟨0, 5⟩⟩] ∧
      ∀ text, ∀ finding ∈ Check.script store text, finding.kind ≠ .unknownCommand "@bar(" := by
  intro store
  have hfoo : Token.scan "@FOO" = [⟨.word, "@foo", ⟨0, 4⟩⟩] := by decide +kernel
  have hbar : Token.scan "@Bar(" = [⟨.call, "@bar(", ⟨0, 5⟩⟩] := by decide +kernel
  have hsame : Text.sameIgnoringCase "@bar(" "@Bar(" = true := by
    rw [Text.sameIgnoringCase_iff, Text.foldCase, Text.foldCase, ← String.toList_inj,
      String.toList_map, String.toList_map]
    decide
  have hvalue : Store.get store "@foo" = "@write(hi)" := by decide +kernel
  obtain ⟨-, hname, -⟩ := (Engine.stored_names_answer_in_lower_case store).1 "@FOO"
    ⟨.word, "@foo", ⟨0, 4⟩⟩ hfoo rfl (by decide) (by decide +kernel)
  obtain ⟨hcheck, hrun⟩ := hname (by simp [hvalue])
  have hcall := (Engine.stored_names_answer_in_lower_case store).2 "@Bar(" "x)"
    ⟨.call, "@bar(", ⟨0, 5⟩⟩ hbar rfl (by decide +kernel) (by decide +kernel) hsame
  exact ⟨hfoo, hvalue, hcheck, hrun (Engine.new store {}) 8 rfl rfl, hbar, hcall.1⟩

/-- A stored script whose bare name has a capital, and one whose call has a capital outside ASCII,
are not found by their own spelling. -/
theorem Engine.capital_names_are_unknown :
    let named := Dictionary.empty.insert "@Foo" "@write(hi)"
    let called := Dictionary.empty.insert "@É(x)" "@write($x)"
    Store.get named "@Foo" = "@write(hi)" ∧
      Check.script named "@Foo" = [⟨.unknownCommand "@foo", some ⟨0, 4⟩, some "@Foo", none⟩] ∧
      ((Engine.new named {}).runWithin 9 "@Foo").result =
        .error (.failed ⟨.unknownCommand "@foo", some ⟨0, 4⟩, ["@Foo"]⟩) ∧
      "@É(" ++ "x)" ∈ Store.keys called ∧
      Check.script called "@É(1)" =
        [⟨.unknownCommand "@é(", some ⟨0, 4⟩, some "@É(1)", none⟩] ∧
      ((Engine.new called {}).runWithin 9 "@É(1)").result =
        .error (.failed ⟨.unknownCommand "@é(", some ⟨0, 4⟩, ["@É(1)"]⟩) := by
  intro named called
  refine ⟨?_, ?_, ?_, ?_, ?_, ?_⟩ <;> decide +kernel

end AtScript
