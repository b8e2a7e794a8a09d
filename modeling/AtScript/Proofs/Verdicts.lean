import AtScript.Proofs.Acceptance
import AtScript.Proofs.StoredNames
import Mathlib.Data.List.Induction

/-! # What a check reports

A check scans tokens once, with counters and with the last branch keyword in hand. What it reports
can be said without the scan. If some token is at fault by itself, because the store does not have
the command or because a branch keyword cannot follow the one before it, the first such token is
reported. If there is none, it is the first balance that the numbers of tokens break, whatever the
order in which these tokens stand.
-/

namespace AtScript.Check

variable {S : Type} [Store S]

/-! ## Faults -/

/-- The last branch keyword before a place. Where there is none, it is as if a chain had just
ended. -/
def precedingBranch (all : List Token) (index : Nat) : Branch :=
  ((all.take index).filterMap Token.branch?).getLast?.getD .endIf

/-- What makes the token at a place a fault of its own, and where that token stands. -/
inductive Fault (store : S) (all : List Token) (index : Nat) : FindingKind → Span → Prop
  /-- No key begins with the text of a call, the case of ASCII letters aside. -/
  | unknownCall {token : Token} (htoken : all[index]? = some token) (hkind : token.kind = .call)
      (hat : token.hasAt = true) (hkeyword : Keyword.ofToken? token = none)
      (hmissing : ∀ key ∈ Store.keys store,
        ¬(Text.foldCase token.text).toList <+: (Text.foldCase key).toList) :
      Fault store all index (.unknownCommand token.text) token.span
  /-- The text of a bare command is a key without a value. -/
  | unknownWord {token : Token} (htoken : all[index]? = some token) (hkind : token.kind = .word)
      (hat : token.hasAt = true) (hkeyword : Keyword.ofToken? token = none)
      (hmissing : Store.get store token.text = "") :
      Fault store all index (.unknownCommand token.text) token.span
  /-- A branch keyword cannot follow the one before it. -/
  | misplaced {token : Token} {part : Branch} (htoken : all[index]? = some token)
      (hpart : Keyword.ofToken? token = some (.branch part))
      (hlast : precedingBranch all index ∉ predecessors part) :
      Fault store all index (.misplaced part index) token.span

/-! ## Balances -/

namespace Pairing

/-- Whether a token is one of those that have to be closed. -/
def opens : Pairing → Token → Bool
  | .parentheses, token => token.kind = .call
  | .chains, token => token.branch? = some .ifWord
  | .conditions, token => token.branch? = some .ifWord ∨ token.branch? = some .elseIf
  | .loops family, token => Keyword.ofToken? token = some (.loop family)

/-- Whether a token is one of those that close. -/
def closes : Pairing → Token → Bool
  | .parentheses, token => token.kind = .close
  | .chains, token => token.branch? = some .endIf
  | .conditions, token => token.branch? = some .thenWord
  | .loops family, token => Keyword.ofToken? token = some (.endLoop family)

/-- Whether as many tokens open as close. -/
def balances (pairing : Pairing) (all : List Token) : Bool :=
  all.countP pairing.opens = all.countP pairing.closes

/-- The pairings in the order in which they are judged. -/
def inOrder : List Pairing :=
  [.parentheses, .chains, .conditions, .loops .range, .loops .keys, .loops .items]

/-- What is reported when a pairing is out of balance. -/
def finding : Pairing → FindingKind
  | .parentheses => .parentheses
  | .chains => .ifCount
  | .conditions => .thenCount
  | .loops family => .loopCount family

end Pairing

/-- The report on a list of tokens. -/
inductive Verdict (store : S) (all : List Token) : Except Finding Unit → Prop
  /-- The first token at fault is reported, with its place. -/
  | fault {index : Nat} {kind : FindingKind} {span : Span} (hfault : Fault store all index kind span)
      (hfirst : ∀ earlier < index, ∀ kind span, ¬Fault store all earlier kind span) :
      Verdict store all (.error { kind := kind, span := some span })
  /-- No token is at fault, and the first pairing out of balance is reported, without a place. -/
  | imbalance (hsound : ∀ index kind span, ¬Fault store all index kind span) {pairing : Pairing}
      (hpairing : Pairing.inOrder.find? (!Pairing.balances · all) = some pairing) :
      Verdict store all (.error { kind := pairing.finding })
  /-- No token is at fault and every pairing is in balance. -/
  | accepted (hsound : ∀ index kind span, ¬Fault store all index kind span)
      (hbalanced : ∀ pairing : Pairing, pairing.balances all = true) :
      Verdict store all (.ok ())

/-! ## The scan in terms of the tokens it has counted -/

/-- What is counted for some tokens. -/
def Tally.of (tokens : List Token) : Tally :=
  tokens.foldl Tally.count {}

theorem Tally.of_concat (tokens : List Token) (token : Token) :
    Tally.of (tokens ++ [token]) = (Tally.of tokens).count token := by
  rw [Tally.of, List.foldl_append]
  rfl

theorem Tally.last_of (tokens : List Token) :
    (Tally.of tokens).last = (tokens.filterMap Token.branch?).getLast?.getD .endIf := by
  induction tokens using List.reverseRecOn with
  | nil => rfl
  | append_singleton tokens token ih =>
      rw [Tally.of_concat, Tally.last_count, ih, List.filterMap_append]
      cases htoken : token.branch? <;> simp [htoken]

theorem Tally.excess_of (tokens : List Token) (pairing : Pairing) :
    (Tally.of tokens).excess pairing = pairing.excess tokens := by
  induction tokens using List.reverseRecOn with
  | nil =>
      cases pairing with
      | loops family => cases family <;> rfl
      | _ => rfl
  | append_singleton tokens token ih =>
      rw [Tally.of_concat, Tally.excess_count, ih, Pairing.excess_append, Pairing.excess_cons,
        Pairing.excess_nil, Int.add_zero]

/-- A token adds one for opening and takes one away for closing. -/
theorem Pairing.change_eq (pairing : Pairing) (token : Token) :
    pairing.change token =
      (if pairing.opens token then 1 else 0) - (if pairing.closes token then 1 else 0) := by
  rw [change]
  cases pairing with
  | parentheses =>
      have hkeyword : (Keyword.ofToken? token).elim 0 Pairing.parentheses.ofKeyword = 0 := by
        cases Keyword.ofToken? token <;> rfl
      rw [hkeyword]
      cases hkind : token.kind <;> simp [ofKind, opens, closes, hkind]
  | chains | conditions | loops family =>
      simp only [ofKind, opens, closes, Token.branch?_eq_some_iff, decide_eq_true_iff]
      cases hkeyword : Keyword.ofToken? token with
      | none => simp
      | some keyword =>
          cases keyword with
          | branch part => cases part <;> simp [ofKeyword]
          | endLoop other => simp [ofKeyword, apply_ite Neg.neg]
          | _ => simp [ofKeyword]

theorem Pairing.excess_eq (pairing : Pairing) (all : List Token) :
    pairing.excess all = all.countP pairing.opens - all.countP pairing.closes := by
  induction all with
  | nil => rfl
  | cons token rest ih =>
      rw [excess_cons, ih, change_eq, List.countP_cons, List.countP_cons]
      split <;> split <;> push_cast <;> omega

theorem Pairing.balances_iff (pairing : Pairing) (all : List Token) :
    pairing.balances all = true ↔ pairing.excess all = 0 := by
  rw [balances, decide_eq_true_iff, excess_eq]
  omega

theorem Tally.imbalance?_eq (tally : Tally) :
    tally.imbalance? =
      (Pairing.inOrder.find? (tally.excess · ≠ 0)).map Pairing.finding := by
  have hchains : tally.ifs ≠ tally.endIfs ↔ tally.excess .chains ≠ 0 := by
    rw [excess]
    omega
  have hconditions : tally.ifs + tally.elseIfs ≠ tally.thens ↔ tally.excess .conditions ≠ 0 := by
    rw [excess]
    omega
  have hparentheses : tally.parentheses = tally.excess .parentheses := rfl
  have hloops (family : LoopFamily) : tally.loops family = tally.excess (.loops family) := rfl
  simp only [imbalance?, hparentheses, hchains, hconditions, hloops, Pairing.inOrder]
  split_ifs <;> simp [*, Pairing.finding]

theorem Tally.imbalance?_of (all : List Token) :
    (Tally.of all).imbalance? =
      (Pairing.inOrder.find? (!Pairing.balances · all)).map Pairing.finding := by
  have hbalances (pairing : Pairing) :
      decide ((Tally.of all).excess pairing ≠ 0) = !pairing.balances all := by
    rw [Tally.excess_of, decide_not, ← Bool.not_not (pairing.balances all)]
    simp [← pairing.balances_iff]
  rw [Tally.imbalance?_eq]
  simp only [hbalances]

/-! ## Faults are what the scan stops at -/

theorem isStored_call_iff (store : S) {command : Token} (hkind : command.kind = .call)
    (hat : command.hasAt = true) :
    isStored store command = true ↔ ∃ key ∈ Store.keys store,
      (Text.foldCase command.text).toList <+: (Text.foldCase key).toList := by
  have hfront : command.text.front? = some '@' := beq_iff_eq.mp hat
  rw [isStored, if_pos hkind, Store.entriesFrom, List.isEmpty_map, Bool.not_eq_true',
    List.isEmpty_eq_false_iff_exists_mem]
  simp only [List.mem_filter, Store.isSome_afterStart?_iff hfront]

theorem isStored_word_iff (store : S) {command : Token} (hkind : command.kind = .word) :
    isStored store command = true ↔ Store.get store command.text ≠ "" := by
  rw [isStored, if_neg (by simp [hkind]), Bool.not_eq_true', String.isEmpty_eq_false_iff]

/-- The scan stops at a token exactly when the token is at fault. -/
theorem fault_iff_flaw? (store : S) {all : List Token} {index : Nat} {token : Token}
    (htoken : all[index]? = some token) (kind : FindingKind) (span : Span) :
    Fault store all index kind span ↔
      flaw? store index (Tally.of (all.take index)) token = some kind ∧ token.span = span := by
  have hlast : (Tally.of (all.take index)).last = precedingBranch all index :=
    Tally.last_of (all.take index)
  constructor
  · intro hfault
    cases hfault with
    | unknownCall hother hkind hat hkeyword hmissing =>
        obtain rfl := Option.some.inj (htoken.symm.trans hother)
        have hstored : isStored store token = false := by
          rw [← Bool.not_eq_true, isStored_call_iff store hkind hat]
          rintro ⟨key, hkey, hbegins⟩
          exact hmissing key hkey hbegins
        simp [flaw?, hkeyword, Token.isCommand, hkind, hat, hstored]
    | unknownWord hother hkind hat hkeyword hmissing =>
        obtain rfl := Option.some.inj (htoken.symm.trans hother)
        have hstored : isStored store token = false := by
          rw [← Bool.not_eq_true, isStored_word_iff store hkind, not_not]
          exact hmissing
        simp [flaw?, hkeyword, Token.isCommand, hkind, hat, hstored]
    | misplaced hother hpart hpreceding =>
        obtain rfl := Option.some.inj (htoken.symm.trans hother)
        simp [flaw?, hpart, Tally.admits, hlast, hpreceding]
  · rintro ⟨hflaw, rfl⟩
    rw [flaw?] at hflaw
    split at hflaw
    next part hpart =>
      split at hflaw
      next => cases hflaw
      next hadmits =>
        cases hflaw
        refine .misplaced htoken hpart ?_
        rw [← hlast]
        simpa [Tally.admits] using hadmits
    next => cases hflaw
    next hkeyword =>
      split at hflaw
      next hunknown =>
        cases hflaw
        rw [Bool.and_eq_true, Bool.not_eq_true', ← Bool.not_eq_true] at hunknown
        obtain ⟨hcommand, hstored⟩ := hunknown
        rw [Token.isCommand] at hcommand
        split at hcommand
        next hkind =>
          rw [isStored_call_iff store hkind hcommand] at hstored
          exact .unknownCall htoken hkind hcommand hkeyword fun key hkey hbegins =>
            hstored ⟨key, hkey, hbegins⟩
        next hkind =>
          rw [isStored_word_iff store hkind, not_not] at hstored
          exact .unknownWord htoken hkind hcommand hkeyword hstored
        next => cases hcommand
      next => cases hflaw

theorem Fault.exists_token {store : S} {all : List Token} {index : Nat} {kind : FindingKind}
    {span : Span} (hfault : Fault store all index kind span) :
    ∃ token, all[index]? = some token := by
  cases hfault with
  | unknownCall htoken | unknownWord htoken | misplaced htoken => exact ⟨_, htoken⟩

theorem Fault.unique {store : S} {all : List Token} {index : Nat} {kind other : FindingKind}
    {span place : Span} (hfault : Fault store all index kind span)
    (hother : Fault store all index other place) : kind = other ∧ span = place := by
  obtain ⟨token, htoken⟩ := hfault.exists_token
  obtain ⟨hkind, rfl⟩ := (fault_iff_flaw? store htoken kind span).mp hfault
  obtain ⟨hsame, rfl⟩ := (fault_iff_flaw? store htoken other place).mp hother
  exact ⟨Option.some.inj (hkind.symm.trans hsame), rfl⟩

/-! ## The report -/

/-- There is only one report on a list of tokens. -/
theorem Verdict.unique {store : S} {all : List Token} {report other : Except Finding Unit}
    (hreport : Verdict store all report) (hother : Verdict store all other) : report = other := by
  have hbroken {pairing : Pairing}
      (hpairing : Pairing.inOrder.find? (!Pairing.balances · all) = some pairing) :
      ¬pairing.balances all = true := by
    simpa using List.find?_some hpairing
  cases hreport with
  | fault hfault hfirst =>
      cases hother with
      | fault hfault' hfirst' =>
          rename_i index kind span index' kind' span'
          rcases Nat.lt_trichotomy index index' with hlt | rfl | hlt
          · exact absurd hfault (hfirst' _ hlt _ _)
          · obtain ⟨rfl, rfl⟩ := hfault.unique hfault'
            rfl
          · exact absurd hfault' (hfirst _ hlt _ _)
      | imbalance hsound | accepted hsound => exact absurd hfault (hsound _ _ _)
  | imbalance hsound hpairing =>
      cases hother with
      | fault hfault => exact absurd hfault (hsound _ _ _)
      | imbalance _ hpairing' =>
          obtain rfl := Option.some.inj (hpairing.symm.trans hpairing')
          rfl
      | accepted _ hbalanced => exact absurd (hbalanced _) (hbroken hpairing)
  | accepted hsound hbalanced =>
      cases hother with
      | fault hfault => exact absurd hfault (hsound _ _ _)
      | imbalance _ hpairing => exact absurd (hbalanced _) (hbroken hpairing)
      | accepted => rfl

/-- The scan of what is left, once no token that was seen is at fault. -/
theorem verdict_tokensFrom (store : S) (seen rest : List Token)
    (hsound : ∀ index < seen.length, ∀ kind span, ¬Fault store (seen ++ rest) index kind span) :
    Verdict store (seen ++ rest) (tokensFrom store seen.length (Tally.of seen) rest) := by
  induction rest generalizing seen with
  | nil =>
      rw [List.append_nil] at hsound ⊢
      have hnone (index : Nat) (kind : FindingKind) (span : Span) :
          ¬Fault store seen index kind span := by
        intro hfault
        obtain ⟨token, htoken⟩ := hfault.exists_token
        obtain ⟨hindex, -⟩ := List.getElem?_eq_some_iff.mp htoken
        exact hsound index hindex kind span hfault
      rw [tokensFrom, Tally.imbalance?_of]
      cases hpairing : Pairing.inOrder.find? (!Pairing.balances · seen) with
      | none =>
          refine .accepted hnone (Pairing.forall_iff.mpr ?_)
          simpa [Pairing.inOrder] using hpairing
      | some pairing => exact .imbalance hnone hpairing
  | cons token rest ih =>
      have htoken : (seen ++ token :: rest)[seen.length]? = some token := by simp
      have hiff := fault_iff_flaw? store htoken
      rw [List.take_left] at hiff
      rw [tokensFrom]
      cases hflaw : flaw? store seen.length (Tally.of seen) token with
      | some kind => exact .fault ((hiff kind token.span).mpr ⟨hflaw, rfl⟩) hsound
      | none =>
          have hnext := ih (seen ++ [token])
          rw [List.append_assoc, List.length_append, Tally.of_concat] at hnext
          apply hnext
          intro index hindex kind span hfault
          rcases Nat.lt_succ_iff_lt_or_eq.mp hindex with hlt | rfl
          · exact hsound index hlt kind span hfault
          · have hsome := ((hiff kind span).mp hfault).1
            rw [hflaw] at hsome
            cases hsome

/-- A check of tokens reports exactly what `Verdict` says: the first token that is at fault by
itself, with its place; or else the first pairing that is out of balance, without a place; or else
nothing. -/
theorem tokens_eq_iff_verdict (store : S) (all : List Token) (report : Except Finding Unit) :
    tokens store all = report ↔ Verdict store all report := by
  have hverdict : Verdict store all (tokens store all) :=
    verdict_tokensFrom store [] all fun index hindex => absurd hindex (Nat.not_lt_zero index)
  exact ⟨fun hreport => hreport ▸ hverdict, hverdict.unique⟩

end AtScript.Check
