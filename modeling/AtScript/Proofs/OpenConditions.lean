import AtScript.Proofs.Verdicts

/-! # Conditions that are left open

A check keeps a single last branch keyword for all levels of nesting, and counts conditions and
THENs apart from it. Still the two agree after every token: at most one condition is open, and it is
the one that the last branch keyword opens. So a check misses a THEN only in the condition that the
tokens end in.
-/

namespace AtScript

/-- The number of THENs that are due after a branch keyword. -/
def Branch.dueThens : Branch → Nat
  | .ifWord | .elseIf => 1
  | .thenWord | .elseWord | .endIf => 0

namespace Check

variable {S : Type} [Store S] {store : S}

/-! ## What is counted while no token is at fault -/

/-- A scan from the start gets past some tokens and has counted them. -/
inductive Scanned (store : S) : List Token → Tally → Prop
  | start : Scanned store [] {}
  | next {seen : List Token} {tally : Tally} {token : Token} (hseen : Scanned store seen tally)
      (hflaw : flaw? store seen.length tally token = none) :
      Scanned store (seen ++ [token]) (tally.count token)

/-- The check of longer tokens goes on from there. -/
theorem Scanned.tokens_append {seen : List Token} {tally : Tally}
    (hscanned : Scanned store seen tally) (rest : List Token) :
    tokens store (seen ++ rest) = tokensFrom store seen.length tally rest := by
  induction hscanned generalizing rest with
  | start => rfl
  | @next seen tally token _ hflaw ih =>
      rw [List.append_assoc, List.singleton_append, ih, tokensFrom, hflaw, List.length_append]
      rfl

theorem Pairing.change_conditions (token : Token) :
    Pairing.conditions.change token =
      token.branch?.elim 0 fun part => Pairing.conditions.ofKeyword (.branch part) := by
  have hkind : Pairing.conditions.ofKind token.kind = 0 := by cases token.kind <;> rfl
  rw [change, hkind, Int.zero_add, Token.branch?]
  cases Keyword.ofToken? token with
  | none => rfl
  | some keyword => cases keyword <;> rfl

/-- A branch keyword that may follow another one settles what was due, and makes due what it
opens. -/
theorem Pairing.ofKeyword_branch {last part : Branch} (hlast : last ∈ predecessors part) :
    last.dueThens + Pairing.conditions.ofKeyword (.branch part) = part.dueThens := by
  cases part <;> cases last <;> first | rfl | exact absurd hlast (by decide)

/-- Counting a token without a flaw keeps the open conditions in step with the last branch
keyword. -/
theorem Tally.excess_conditions_count {index : Nat} {tally : Tally} {token : Token}
    (hflaw : flaw? store index tally token = none)
    (htally : tally.excess .conditions = tally.last.dueThens) :
    (tally.count token).excess .conditions = (tally.count token).last.dueThens := by
  obtain ⟨-, hbranch⟩ := (flaw?_eq_none_iff store index tally token).mp hflaw
  rw [Tally.excess_count, Tally.last_count, htally, Pairing.change_conditions]
  rw [branchAfter?] at hbranch
  cases hpart : token.branch? with
  | none => exact Int.add_zero _
  | some part =>
      simp only [hpart] at hbranch
      split at hbranch
      next hlast => exact Pairing.ofKeyword_branch hlast
      next => cases hbranch

theorem Scanned.excess_conditions {seen : List Token} {tally : Tally}
    (hscanned : Scanned store seen tally) : tally.excess .conditions = tally.last.dueThens := by
  induction hscanned with
  | start => rfl
  | next _ hflaw ih => exact Tally.excess_conditions_count hflaw ih

/-! ## Where the tokens end -/

/-- The last branch keyword is an IF or ELSEIF, so no THEN comes after it. -/
def EndsInCondition (all : List Token) : Prop :=
  ∃ opener after, opener :: after <:+ all ∧ Pairing.conditions.opens opener = true ∧
    ∀ token ∈ after, token.branch? = none

/-- Every IF and ELSEIF has a THEN after it. -/
def ClosesConditions (all : List Token) : Prop :=
  ∀ opener after, opener :: after <:+ all → Pairing.conditions.opens opener = true →
    ∃ token ∈ after, Pairing.conditions.closes token = true

theorem Pairing.opens_conditions_iff (token : Token) :
    Pairing.conditions.opens token = true ↔
      ∃ part, token.branch? = some part ∧ part.dueThens ≠ 0 := by
  rw [opens, decide_eq_true_iff]
  constructor
  · rintro (htoken | htoken) <;> exact ⟨_, htoken, Nat.one_ne_zero⟩
  · rintro ⟨part, htoken, hdue⟩
    cases part <;> first | exact .inl htoken | exact .inr htoken | exact absurd rfl hdue

/-- The tokens end in a condition when a THEN is due after their last branch keyword. -/
theorem endsInCondition_iff (all : List Token) :
    EndsInCondition all ↔ (Tally.of all).last.dueThens ≠ 0 := by
  rw [Tally.last_of]
  constructor
  · rintro ⟨opener, after, ⟨before, rfl⟩, hopens, hafter⟩
    obtain ⟨part, hpart, hdue⟩ := (Pairing.opens_conditions_iff opener).mp hopens
    have hnone : after.filterMap Token.branch? = [] := List.filterMap_eq_nil_iff.mpr hafter
    simpa [List.filterMap_append, List.filterMap_cons_some hpart, hnone] using hdue
  · intro hdue
    cases hlast : (all.filterMap Token.branch?).getLast? with
    | none =>
        rw [hlast] at hdue
        exact absurd rfl hdue
    | some part =>
        rw [hlast] at hdue
        obtain ⟨parts, hparts⟩ := List.getLast?_eq_some_iff.mp hlast
        obtain ⟨before, rest, rfl, -, hrest⟩ := List.filterMap_eq_append_iff.mp hparts
        obtain ⟨between, opener, after, rfl, -, hopener, hafter⟩ :=
          List.filterMap_eq_cons_iff.mp hrest
        exact ⟨opener, after, ⟨before ++ between, List.append_assoc _ _ _⟩,
          (Pairing.opens_conditions_iff opener).mpr ⟨part, hopener, hdue⟩,
          List.filterMap_eq_nil_iff.mp hafter⟩

theorem EndsInCondition.not_closesConditions {all : List Token} (hends : EndsInCondition all) :
    ¬ClosesConditions all := by
  obtain ⟨opener, after, hsuffix, hopens, hafter⟩ := hends
  intro hcloses
  obtain ⟨token, htoken, hthen⟩ := hcloses opener after hsuffix hopens
  simp [Pairing.closes, hafter token htoken] at hthen

/-! ## When THENs are missing -/

theorem Scanned.eq_of {seen : List Token} {tally : Tally} (hscanned : Scanned store seen tally) :
    tally = Tally.of seen := by
  induction hscanned with
  | start => rfl
  | next _ _ ih => rw [Tally.of_concat, ← ih]

theorem flaw?_ne_thenCount (store : S) (index : Nat) (tally : Tally) (token : Token) :
    flaw? store index tally token ≠ some .thenCount := by
  rw [flaw?]
  split
  next => split <;> simp
  next => simp
  next => split <;> simp

theorem Tally.imbalance?_eq_thenCount_iff (tally : Tally) :
    tally.imbalance? = some .thenCount ↔
      tally.excess .parentheses = 0 ∧ tally.excess .chains = 0 ∧ tally.excess .conditions ≠ 0 := by
  rw [imbalance?]
  simp only [excess]
  split_ifs <;> simp <;> omega

/-- Only the counts of tokens without a flaw can miss a THEN. -/
theorem Scanned.of_error {seen rest : List Token} {tally : Tally} {finding : Finding}
    (hscanned : Scanned store seen tally)
    (herror : tokensFrom store seen.length tally rest = .error finding)
    (hkind : finding.kind = .thenCount) :
    ∃ total, Scanned store (seen ++ rest) total ∧ total.imbalance? = some .thenCount := by
  induction rest generalizing seen tally with
  | nil =>
      rw [tokensFrom] at herror
      cases himbalance : tally.imbalance? with
      | none =>
          rw [himbalance] at herror
          cases herror
      | some kind =>
          rw [himbalance] at herror
          cases herror
          obtain rfl : kind = .thenCount := hkind
          exact ⟨tally, by rwa [List.append_nil], himbalance⟩
  | cons token rest ih =>
      rw [tokensFrom] at herror
      cases hflaw : flaw? store seen.length tally token with
      | some kind =>
          rw [hflaw] at herror
          cases herror
          obtain rfl : kind = .thenCount := hkind
          exact absurd hflaw (flaw?_ne_thenCount store _ tally token)
      | none =>
          rw [hflaw] at herror
          rw [List.append_cons]
          apply ih (hscanned.next hflaw)
          rwa [List.length_append]

theorem Scanned.imbalance?_iff {all : List Token} {tally : Tally}
    (hscanned : Scanned store all tally) :
    tally.imbalance? = some .thenCount ↔
      Pairing.parentheses.balances all = true ∧ Pairing.chains.balances all = true ∧
        EndsInCondition all := by
  rw [Tally.imbalance?_eq_thenCount_iff, endsInCondition_iff, ← hscanned.eq_of,
    hscanned.excess_conditions, Pairing.balances_iff, Pairing.balances_iff, ← Tally.excess_of,
    ← Tally.excess_of, ← hscanned.eq_of]
  simp

theorem missing_then_iff (store : S) (all : List Token) :
    (∃ finding, tokens store all = .error finding ∧ finding.kind = .thenCount) ↔
      (∃ tally, Scanned store all tally) ∧ Pairing.parentheses.balances all = true ∧
        Pairing.chains.balances all = true ∧ EndsInCondition all := by
  constructor
  · rintro ⟨finding, herror, hkind⟩
    obtain ⟨tally, hscanned, himbalance⟩ := Scanned.start.of_error herror hkind
    exact ⟨⟨tally, hscanned⟩, hscanned.imbalance?_iff.mp himbalance⟩
  · rintro ⟨⟨tally, hscanned⟩, hends⟩
    have hreport := hscanned.tokens_append []
    rw [List.append_nil, tokensFrom, hscanned.imbalance?_iff.mpr hends] at hreport
    exact ⟨_, hreport, rfl⟩

/-- Wherever a scan gets without a flaw, one condition is open if the last branch keyword is an IF
or ELSEIF, and none otherwise. So THENs are reported missing exactly when the scan gets to the end,
parentheses and chains are in balance and the last branch keyword is an IF or ELSEIF, with no THEN
after it. They are never reported when every condition is closed. -/
theorem one_condition_is_open_at_most (store : S) (all : List Token) :
    (∀ seen rest tally, all = seen ++ rest → Scanned store seen tally →
      tokens store all = tokensFrom store seen.length tally rest ∧
      (tally.ifs : Int) + tally.elseIfs - tally.thens =
        if tally.last = .ifWord ∨ tally.last = .elseIf then 1 else 0) ∧
    ((∃ finding, tokens store all = .error finding ∧ finding.kind = .thenCount) ↔
      (∃ tally, Scanned store all tally) ∧ Pairing.parentheses.balances all = true ∧
        Pairing.chains.balances all = true ∧ EndsInCondition all) ∧
    (ClosesConditions all →
      ∀ finding, tokens store all = .error finding → finding.kind ≠ .thenCount) := by
  refine ⟨?_, missing_then_iff store all, ?_⟩
  · rintro seen rest tally rfl hscanned
    have hdue : (tally.ifs : Int) + tally.elseIfs - tally.thens = tally.last.dueThens :=
      hscanned.excess_conditions
    refine ⟨hscanned.tokens_append rest, hdue.trans ?_⟩
    cases tally.last <;> rfl
  · intro hcloses finding herror hkind
    obtain ⟨-, -, -, hends⟩ := (missing_then_iff store all).mp ⟨finding, herror, hkind⟩
    exact hends.not_closesConditions hcloses

/-- An ENDIF and an IF that are not of one chain are in balance, and an ELSEIF at the end misses its
THEN. Where every IF has its THEN, something else is reported. -/
theorem condition_open_at_end :
    let word (text : String) : Token := ⟨.word, text, ⟨0, 0⟩⟩
    let store := Dictionary.empty
    let chain := [word "@endif", word "@if", word "x", word "@then", word "@elseif", word "y"]
    let branch := [word "@if", word "x", word "@then"]
    (∃ tally, Scanned store chain tally ∧ tally.last = .elseIf ∧
      (tally.ifs : Int) + tally.elseIfs - tally.thens = 1) ∧
    (tokens store chain = .error { kind := .thenCount } ∧ EndsInCondition chain) ∧
    (ClosesConditions branch ∧ tokens store branch = .error { kind := .ifCount } ∧
      FindingKind.ifCount ≠ .thenCount) := by
  intro word store chain branch
  have hchain : tokens store chain = .error { kind := .thenCount } := by decide +kernel
  have hbranch : tokens store branch = .error { kind := .ifCount } := by decide +kernel
  have hcloses : ClosesConditions branch := by
    intro opener after hsuffix hopens
    rcases List.suffix_cons_iff.mp hsuffix with heq | hsuffix
    · cases heq
      exact ⟨word "@then", by simp, by decide +kernel⟩
    rcases List.suffix_cons_iff.mp hsuffix with heq | hsuffix
    · cases heq
      exact absurd hopens (by decide +kernel)
    rcases List.suffix_cons_iff.mp hsuffix with heq | hsuffix
    · cases heq
      exact absurd hopens (by decide +kernel)
    · cases List.suffix_nil.mp hsuffix
  obtain ⟨hcounts, hmissing, -⟩ := one_condition_is_open_at_most store chain
  obtain ⟨-, -, hnever⟩ := one_condition_is_open_at_most store branch
  obtain ⟨⟨tally, hscanned⟩, -, -, hends⟩ := hmissing.mp ⟨_, hchain, rfl⟩
  have hlast : tally.last = .elseIf := by
    rw [hscanned.eq_of]
    decide +kernel
  have hopen := (hcounts chain [] tally rfl hscanned).2
  rw [if_pos (.inr hlast)] at hopen
  exact ⟨⟨tally, hscanned, hlast, hopen⟩, ⟨hchain, hends⟩, hcloses, hbranch,
    hnever hcloses _ hbranch⟩

end Check

end AtScript
