import AtScript.Proofs.OpenBlocks
import AtScript.Proofs.Soundness

/-! # Runs of checked scripts

A check counts. It does not see that a loop is closed before it is opened, so a script can pass it
and still fail for a broken pairing when it is run. Nesting is all that is missing: a script that
passes the check and whose blocks nest never fails so in its own text. At the start of each of its
commands only chains are open and no condition is being read, and what is left of the tokens closes
these chains.
-/

namespace AtScript

open Check Nesting

/-- A stop that does not blame a broken pairing on the script at hand. -/
def Stop.KeepsPairs (stop : Stop RunError) : Prop :=
  ∀ error, stop = .failed error → error.trail = [] → ∀ pairing, error.kind ≠ .imbalance pairing

theorem Stop.Sound.keepsPairs {stop : Stop RunError} (hsound : stop.Sound) : stop.KeepsPairs := by
  intro error herror htrail pairing hkind
  have hstructural := hsound error herror htrail
  rw [hkind] at hstructural
  cases hstructural

theorem Stop.keepsPairs_outOfFuel : Stop.KeepsPairs .outOfFuel := by
  intro error herror
  cases herror

/-! ## Tokens by their role -/

namespace Token

variable {token : Token}

theorem kind_of_role_comma (hrole : token.role = .comma) : token.kind = .comma := by
  grind [role]

theorem kind_of_role_close (hrole : token.role = .close) : token.kind = .close := by
  grind [role]

theorem isLiteral_of_role {value : String} (hrole : token.role = .literal value) :
    token.isLiteral = true := by
  grind [role]

theorem Ordinary.kind (htoken : token.Ordinary) : token.kind ≠ .close := by
  grind [Ordinary, role]

theorem Ordinary.isControl (htoken : token.Ordinary) :
    ∀ keyword, Keyword.ofToken? token = some keyword → keyword.isControl = false := by
  intro keyword hkeyword
  rw [← role_eq_keyword_iff] at hkeyword
  rcases htoken with hrole | ⟨other, hrole, hcontrol⟩
  · cases hrole.symm.trans hkeyword
  · cases hrole.symm.trans hkeyword
    exact hcontrol

end Token

namespace Exec

variable {S α : Type} {run : Runner S} {blocks : List Block} {last : Branch} {tokens : List Token}

/-- A misplaced token is no broken pairing. -/
theorem unexpectedToken_keepsPairs (result : α → Prop) (token : Token) :
    Ensures (S := S) Stop.KeepsPairs result (fail (.unexpectedToken token.text) token.span) := by
  apply Ensures.throw
  rintro _ ⟨⟩ - pairing
  exact nofun

/-! ## Arguments -/

/-- A runner that takes a command with its arguments and leaves the blocks around it open. -/
def TakesCommands (run : Runner S) : Prop :=
  ∀ context token rest, token.Ordinary → Closes context (token :: rest) →
    Ensures Stop.KeepsPairs (Closes context) (run (token :: rest))

theorem argumentsFrom_keepsPairs (hrun : TakesCommands run) (opener : Token) (budget : Nat)
    (part : String) (begun : Bool) (hcloses : Closes ⟨.call :: blocks, last⟩ tokens) :
    Ensures Stop.KeepsPairs (fun value => Closes ⟨blocks, last⟩ value.2)
      (argumentsFrom run opener budget part begun tokens) := by
  induction budget generalizing part begun tokens with
  | zero => exact .throw Stop.keepsPairs_outOfFuel
  | succ budget ih =>
      cases tokens with
      | nil => cases hcloses
      | cons token rest =>
          have hcommand (htoken : token.Ordinary) :
              Ensures Stop.KeepsPairs (fun value => Closes ⟨blocks, last⟩ value.2)
                (capture (run (token :: rest)) >>= fun value =>
                  argumentsFrom run opener budget (part ++ value.2) true value.1) := by
            apply (hrun _ token rest htoken hcloses).capture.bind
            intro value hvalue
            exact ih _ true hvalue
          cases hrole : token.role with
          | comma =>
              simp only [argumentsFrom, hrole]
              apply (ih "" true (hcloses.of_comma (Token.kind_of_role_comma hrole))).bind
              intro value hvalue
              exact .pure hvalue
          | close =>
              simp only [argumentsFrom, hrole]
              obtain ⟨outer, hblocks, hrest⟩ := hcloses.of_close (Token.kind_of_role_close hrole)
              cases hblocks
              exact .pure hrest
          | literal value =>
              simp only [argumentsFrom, hrole]
              exact ih _ true (hcloses.of_literal (Token.isLiteral_of_role hrole))
          | stored =>
              simp only [argumentsFrom, hrole]
              exact hcommand (.inl hrole)
          | keyword keyword =>
              cases hcontrol : keyword.isControl with
              | true =>
                  simp only [argumentsFrom, hrole, hcontrol, if_true]
                  exact unexpectedToken_keepsPairs _ token
              | false =>
                  simp only [argumentsFrom, hrole, hcontrol, Bool.false_eq_true, if_false]
                  exact hcommand (.inr ⟨keyword, hrole, hcontrol⟩)

theorem arguments_keepsPairs (hrun : TakesCommands run) (budget : Nat) {opener : Token}
    (hopener : opener.kind = .call) (hcloses : Closes ⟨.call :: blocks, last⟩ tokens) :
    Ensures Stop.KeepsPairs (fun value => Closes ⟨blocks, last⟩ value.2)
      (arguments budget run opener tokens) := by
  rw [arguments, if_pos hopener]
  exact argumentsFrom_keepsPairs hrun opener budget "" false hcloses

/-- Commands take their arguments when the commands among these do. -/
theorem commandWith_takesCommands [Store S] (hrun : TakesCommands run) (budget : Nat) :
    TakesCommands (commandWith budget run) := by
  intro context token rest htoken hcloses
  apply commandWith_of_arguments (fun _ => Stop.Sound.keepsPairs) budget htoken
  · intro hword
    exact hcloses.of_plain hword htoken.kind htoken.isControl
  · by_cases hcall : token.kind = .call
    · exact arguments_keepsPairs hrun budget hcall (hcloses.of_call ⟨hcall, htoken.isControl⟩)
    · rw [arguments, if_neg hcall]
      exact .pure (hcloses.of_plain hcall htoken.kind htoken.isControl)

/-! ## Conditions -/

theorem ordinary_of_conditionRole {token : Token} (hrole : conditionRole token = .part) :
    token.isLiteral = true ∨ token.Ordinary := by
  cases hfound : token.role with
  | comma | close => simp [conditionRole, hfound] at hrole
  | literal value => exact .inl (Token.isLiteral_of_role hfound)
  | stored => exact .inr (.inl hfound)
  | keyword keyword =>
      refine .inr (.inr ⟨keyword, hfound, ?_⟩)
      grind [conditionRole]

/-- Only AND, OR and NOT join and negate. -/
theorem connector_of_conditionRole {token : Token} (hrole : conditionRole token = .negation ∨
    ∃ conjunction, conditionRole token = .connector conjunction) :
    ∃ word, Keyword.ofToken? token = some (.connector word) := by
  cases hfound : token.role with
  | keyword keyword =>
      cases keyword with
      | connector word => exact ⟨word, Token.role_eq_keyword_iff.mp hfound⟩
      | _ => grind [conditionRole]
  | _ => simp [conditionRole, hfound] at hrole

/-- The part of a condition is taken as a whole. -/
theorem conditionPart_keepsPairs (hrun : TakesCommands run) {context : Context} {token : Token}
    {rest : List Token} (hrole : conditionRole token = .part)
    (hcloses : Closes context (token :: rest)) :
    Ensures Stop.KeepsPairs (fun value => Closes context value.1)
      (conditionPart run token rest) := by
  rw [conditionPart]
  split
  next hliteral => exact .pure (hcloses.of_literal hliteral)
  next hliteral =>
    have htoken := (ordinary_of_conditionRole hrole).resolve_left hliteral
    exact (hrun context token rest htoken hcloses).capture

theorem conditionFrom_keepsPairs (hrun : TakesCommands run) (ifSpan : Span) (budget : Nat)
    (condition : PartialCondition) (hcloses : Closes ⟨.chain :: blocks, last⟩ tokens) :
    Ensures Stop.KeepsPairs (fun value => Closes ⟨.chain :: blocks, .thenWord⟩ value.2)
      (conditionFrom run ifSpan budget condition tokens) := by
  induction budget generalizing condition tokens with
  | zero => exact .throw Stop.keepsPairs_outOfFuel
  | succ budget ih =>
      cases tokens with
      | nil => cases hcloses
      | cons token rest =>
          cases hrole : conditionRole token with
          | refused =>
              simp only [conditionFrom, hrole]
              exact unexpectedToken_keepsPairs _ token
          | ending =>
              simp only [conditionFrom, hrole]
              split
              · exact unexpectedToken_keepsPairs _ token
              · rw [conditionRole_eq_ending_iff, Token.branch?_eq_some_iff] at hrole
                obtain ⟨-, next, hnext, hrest⟩ := hcloses.of_branch hrole
                cases hnext
                exact .pure hrest
          | negation =>
              simp only [conditionFrom, hrole]
              obtain ⟨word, htoken⟩ := connector_of_conditionRole (.inl hrole)
              exact ih _ (hcloses.of_connector htoken).2
          | connector conjunction =>
              simp only [conditionFrom, hrole]
              obtain ⟨word, htoken⟩ := connector_of_conditionRole (.inr ⟨conjunction, hrole⟩)
              split
              · exact unexpectedToken_keepsPairs _ token
              · exact ih _ (hcloses.of_connector htoken).2
          | part =>
              simp only [conditionFrom, hrole]
              split
              · apply Ensures.bind (conditionPart_keepsPairs hrun hrole hcloses)
                intro value hvalue
                apply ((ofValue_sound token.span _).excuse fun _ => Stop.Sound.keepsPairs).andThen
                intro part
                exact ih _ hvalue
              · exact unexpectedToken_keepsPairs _ token

/-! ## Branches -/

/-- Tokens that a command may start: only chains are open, and no condition is being read. -/
def Ready (tokens : List Token) : Prop :=
  ∃ blocks last, (∀ block ∈ blocks, block = .chain) ∧ last ∈ predecessors .ifWord ∧
    Closes ⟨blocks, last⟩ tokens

/-- A chain goes on in a branch or after its end. -/
theorem chooseBranchWithin_keepsPairs (hrun : TakesCommands run) (budget : Nat) (ifSpan : Span)
    (count : Nat) (hblocks : ∀ block ∈ blocks, block = .chain)
    (hcloses : Closes ⟨.chain :: blocks, last⟩ tokens) :
    Ensures Stop.KeepsPairs Ready (chooseBranchWithin budget run ifSpan count tokens) := by
  induction count generalizing last tokens with
  | zero => exact .throw Stop.keepsPairs_outOfFuel
  | succ count ih =>
      have hinside : ∀ block ∈ Block.chain :: blocks, block = .chain :=
        List.forall_mem_cons.mpr ⟨rfl, hblocks⟩
      apply Ensures.bind (conditionFrom_keepsPairs hrun ifSpan budget {} hcloses)
      rintro ⟨holds, body⟩ hbody
      cases holds with
      | true => exact .pure ⟨_, _, hinside, by decide, hbody⟩
      | false =>
          obtain ⟨kind, after, hend, hafter⟩ := hbody.exists_branchEnd
          simp only [Bool.false_eq_true, if_false, hend]
          cases kind with
          | elseIf => exact ih hafter
          | elseWord => exact .pure ⟨_, _, hinside, by decide, hafter⟩
          | endIf => exact .pure ⟨_, _, hblocks, by decide, hafter⟩

/-! ## Loops -/

variable [Store S]

/-- Whole token lists are run without breaking a pairing. -/
def RunsReady (run : Runner S) : Prop :=
  ∀ tokens, Ready tokens → (∀ token ∈ tokens, token.Steady) →
    Ensures Stop.KeepsPairs (fun _ => True) (sequenceAll run tokens)

theorem loop_keepsPairs (hrun : TakesCommands run) (hadvances : Advances run)
    (hready : RunsReady run) (budget : Nat) {family : LoopFamily} {header : Token}
    (hheader : Keyword.ofToken? header = some (.loop family))
    (hblocks : ∀ block ∈ blocks, block = .chain) (hlast : last ∈ predecessors .ifWord)
    (hcloses : Closes ⟨blocks, last⟩ (header :: tokens))
    (hsteady : ∀ token ∈ tokens, token.Steady) :
    Ensures Stop.KeepsPairs Ready (loop budget run family header tokens) := by
  apply loop_of_arguments (fun _ => Stop.Sound.keepsPairs) budget
  apply ((arguments_keepsPairs hrun budget (Keyword.kind_of_loop hheader)
    (hcloses.of_loop hheader)).and (arguments_leaves hadvances budget header tokens)).mono
  rintro ⟨values, inner⟩ ⟨hinner, hsuffix⟩
  obtain ⟨body, after, last', hfound, hbody, hlast', hafter⟩ := hinner.exists_loopBody hlast
  obtain ⟨final, rfl⟩ := eq_append_of_loopBody? hfound
  have hsteady : ∀ token ∈ body, token.Steady := by
    intro token htoken
    apply hsteady
    exact hsuffix.subset (List.mem_append_left _ htoken)
  refine ⟨body, after, hfound, fun name text => ?_, blocks, last', hblocks, hlast', hafter⟩
  have hchange := substituteToken_requotes hsteady name text
  exact hready _ ⟨[], last, nofun, hlast, hbody.map hchange⟩ (hchange.steady hsteady)

/-! ## Commands -/

/-- A branch keyword at the start of a command opens a chain or ends the one it stands in. -/
theorem commandWith_branch_keepsPairs (hrun : TakesCommands run) (budget : Nat) {token : Token}
    {rest : List Token} {part : Branch} (hrole : token.role = .keyword (.branch part))
    (hblocks : ∀ block ∈ blocks, block = .chain) (hlast : last ∉ predecessors .thenWord)
    (hcloses : Closes ⟨blocks, last⟩ (token :: rest)) :
    Ensures Stop.KeepsPairs Ready (commandWith budget run (token :: rest)) := by
  obtain ⟨hadmitted, next, hnext, hrest⟩ := hcloses.of_branch (Token.role_eq_keyword_iff.mp hrole)
  cases part with
  | ifWord =>
      cases hnext
      simp only [commandWith, hrole]
      exact chooseBranchWithin_keepsPairs hrun budget token.span budget hblocks hrest
  | thenWord => exact absurd hadmitted hlast
  | endIf =>
      obtain ⟨outer, last'⟩ := next
      cases Context.closing?_eq_some_iff.mp hnext
      simp only [commandWith, hrole]
      exact .pure ⟨_, _, (List.forall_mem_cons.mp hblocks).2, by decide, hrest⟩
  | elseIf | elseWord =>
      simp only [Context.branch?] at hnext
      split at hnext
      next hhead =>
        cases hnext
        obtain ⟨outer, rfl⟩ := List.head?_eq_some_iff.mp hhead
        obtain ⟨after, hfound, hafter⟩ := hrest.exists_afterEndIf
        simp only [commandWith, hrole, hfound]
        exact .pure ⟨_, _, (List.forall_mem_cons.mp hblocks).2, by decide, hafter⟩
      next => cases hnext

/-- A command that starts ready tokens leaves ready tokens. -/
theorem commandWith_keepsPairs (hrun : TakesCommands run) (hadvances : Advances run)
    (hready : RunsReady run) (budget : Nat) {token : Token} {rest : List Token}
    (htokens : Ready (token :: rest)) (hsteady : ∀ other ∈ token :: rest, other.Steady) :
    Ensures Stop.KeepsPairs Ready (commandWith budget run (token :: rest)) := by
  obtain ⟨blocks, last, hblocks, hlast, hcloses⟩ := htokens
  have hordinary (htoken : token.Ordinary) :
      Ensures Stop.KeepsPairs Ready (commandWith budget run (token :: rest)) := by
    apply (commandWith_takesCommands hrun budget _ token rest htoken hcloses).mono
    intro after hafter
    exact ⟨blocks, last, hblocks, hlast, hafter⟩
  -- Where a command starts, no condition is being read.
  have hsettled : last ∉ predecessors .thenWord := by
    revert hlast
    cases last <;> decide
  cases hrole : token.role with
  | comma =>
      simp only [commandWith, hrole]
      exact unexpectedToken_keepsPairs _ token
  | close =>
      obtain ⟨outer, rfl, -⟩ := hcloses.of_close (Token.kind_of_role_close hrole)
      cases hblocks .call List.mem_cons_self
  | literal value =>
      simp only [commandWith, hrole]
      apply ((modify_sound _).excuse fun _ => Stop.Sound.keepsPairs).andThen
      intro _
      exact .pure ⟨blocks, last, hblocks, hlast,
        hcloses.of_literal (Token.isLiteral_of_role hrole)⟩
  | stored => exact hordinary (.inl hrole)
  | keyword keyword =>
      have htoken := Token.role_eq_keyword_iff.mp hrole
      cases keyword with
      | loop family =>
          simp only [commandWith, hrole]
          exact loop_keepsPairs hrun hadvances hready budget htoken hblocks hlast hcloses
            (List.forall_mem_cons.mp hsteady).2
      | endLoop family => cases hblocks _ (hcloses.of_endLoop htoken)
      | connector word => exact absurd (hcloses.of_connector htoken).1 hsettled
      | branch part =>
          exact commandWith_branch_keepsPairs hrun budget hrole hblocks hsettled hcloses
      | _ => exact hordinary (.inr ⟨_, hrole, rfl⟩)

/-! ## Whole scripts -/

/-- A runner that keeps ready tokens ready. -/
def KeepsReady (run : Runner S) : Prop :=
  ∀ token rest, Ready (token :: rest) → (∀ other ∈ token :: rest, other.Steady) →
    Ensures Stop.KeepsPairs Ready (run (token :: rest))

omit [Store S] in
theorem runsReady_of_keepsReady (hadvances : Advances run) (hready : KeepsReady run) :
    RunsReady run := by
  intro tokens htokens hsteady
  apply sequence_of_invariant (fun left => Ready left ∧ ∀ token ∈ left, token.Steady)
    Stop.keepsPairs_outOfFuel ?_ tokens.length ⟨htokens, hsteady⟩
  rintro token rest ⟨htokens, hsteady⟩
  apply ((hready token rest htokens hsteady).and (hadvances token rest)).mono
  rintro after ⟨hafter, hsuffix⟩
  refine ⟨hafter, fun other hother => ?_⟩
  exact hsteady other (List.mem_cons_of_mem token (hsuffix.subset hother))

/-- Commands take their arguments as a whole and keep ready tokens ready. -/
theorem command_keepsPairs (fuel : Nat) :
    TakesCommands (S := S) (command fuel) ∧ KeepsReady (S := S) (command fuel) := by
  induction fuel with
  | zero =>
      exact ⟨fun _ _ _ _ _ => .throw Stop.keepsPairs_outOfFuel,
        fun _ _ _ _ => .throw Stop.keepsPairs_outOfFuel⟩
  | succ fuel ih =>
      obtain ⟨hcommands, hready⟩ := ih
      have hadvances := command_advances (S := S) fuel
      refine ⟨commandWith_takesCommands hcommands fuel, fun token rest htokens hsteady => ?_⟩
      exact commandWith_keepsPairs hcommands hadvances (runsReady_of_keepsReady hadvances hready)
        fuel htokens hsteady

end Exec

/-- A script that passes the check and whose blocks nest is ready to be run. -/
theorem Check.ready_of_script_eq_nil {S : Type} [Store S] {store : S} {script : String}
    (hcheck : Check.script store script = []) (hnests : nests (Token.scan script) = true) :
    Exec.Ready (Token.scan script) := by
  rw [script_eq_nil_iff, tokens_eq_ok_iff] at hcheck
  obtain ⟨-, hbranches, hexcess⟩ := hcheck
  exact ⟨[], .endIf, nofun, by decide, closes_of_nests hnests hbranches hexcess⟩

/-- A script that passes the check, whose blocks nest and in which placeholders occur only in quoted
literals never fails for a broken pairing in its own text. -/
theorem Engine.checked_run_breaks_no_pairing {S : Type} [Store S] {fuel : Nat} {engine : Engine S}
    {script : String} {error : RunError} (hcheck : Check.script engine.store script = [])
    (hnests : nests (Token.scan script) = true)
    (hsteady : ∀ token ∈ Token.scan script, token.kind = .word ∨ token.kind = .call →
      '$' ∉ token.text.toList)
    (herror : (engine.runWithin fuel script).result = .error (.failed error))
    (hscripts : error.scripts.length = 1) : ∀ pairing, error.kind ≠ .imbalance pairing := by
  have hready := Exec.runsReady_of_keepsReady (S := S) (Exec.command_advances fuel)
    (Exec.command_keepsPairs fuel).2
  have hown := hready _ (Check.ready_of_script_eq_nil hcheck hnests) hsteady
  rw [Engine.runWithin] at herror
  split at herror
  · cases herror
  · split at herror
    next => cases herror
    next hnested =>
      cases herror
      rw [RunError.scripts, List.length_reverse] at hscripts
      exact Exec.nested_kind_of_own (fun kind => ∀ pairing, kind ≠ .imbalance pairing)
        (fun _ _ hkind => by cases hkind) hown hnested hscripts

/-- A loop among the arguments of a call passes the check, and its blocks nest. A run fails there,
but not for a pairing. -/
theorem Engine.run_loop_in_arguments :
    let engine := Engine.new Dictionary.empty {}
    let script := "@if @not false @then @for(i,1,2) @write(\"$i\",@for(j,1,2)@endfor)@endfor @endif"
    Check.script engine.store script = [] ∧ nests (Token.scan script) = true ∧
      ∃ error, (engine.runWithin 9 script).result = .error (.failed error) ∧
        error.scripts.length = 1 ∧ ∀ pairing, error.kind ≠ .imbalance pairing := by
  intro engine script
  have hcheck : Check.script engine.store script = [] := by decide +kernel
  have hnests : nests (Token.scan script) = true := by decide +kernel
  have hsteady : ∀ token ∈ Token.scan script, token.kind = .word ∨ token.kind = .call →
      '$' ∉ token.text.toList := by decide +kernel
  have herror : (engine.runWithin 9 script).result =
      .error (.failed ⟨.unexpectedToken "@for(", some ⟨45, 5⟩, [script]⟩) := by
    decide +kernel
  exact ⟨hcheck, hnests, _, herror, rfl,
    Engine.checked_run_breaks_no_pairing hcheck hnests hsteady herror rfl⟩

/-- The check accepts a loop that is closed before it is opened, since it counts one opening and one
end. A run fails at the end of the loop for the broken pairing, in the text of the script itself. -/
theorem Engine.accepted_script_breaks_pairing :
    let engine := Engine.new Dictionary.empty {}
    let script := "@endfor @for(i,1,2)"
    Check.script engine.store script = [] ∧
      (∀ token ∈ Token.scan script, token.kind = .word ∨ token.kind = .call →
        '$' ∉ token.text.toList) ∧
      ∃ error, (engine.runWithin 9 script).result = .error (.failed error) ∧
        error.scripts.length = 1 ∧ error.kind = .imbalance (.unexpected (.endLoop .range)) := by
  intro engine script
  have herror : (engine.runWithin 9 script).result =
      .error (.failed ⟨.imbalance (.unexpected (.endLoop .range)), some ⟨0, 7⟩, [script]⟩) := by
    decide +kernel
  exact ⟨by decide +kernel, by decide +kernel, _, herror, rfl, rfl⟩

-- The same happens with a closing parenthesis before its call, a connector outside a condition, an
-- ELSE without IF, and a loop that ends inside a chain. None of these nests.
example :
    let engine := Engine.new Dictionary.empty {}
    ∀ found ∈ [(") @nl(", Imbalance.unmatchedParenthesis, Span.mk 0 1),
        ("@and", .unexpected (.connector .and), ⟨0, 4⟩), ("@else", .missingEndIf, ⟨0, 5⟩),
        ("@for(i,1,2) @if false @then @endfor @endif", .missingEndIf, ⟨12, 3⟩)],
      Check.script engine.store found.1 = [] ∧ nests (Token.scan found.1) = false ∧
        (engine.runWithin 9 found.1).result =
          .error (.failed ⟨.imbalance found.2.1, some found.2.2, [found.1]⟩) := by
  decide +kernel

end AtScript
