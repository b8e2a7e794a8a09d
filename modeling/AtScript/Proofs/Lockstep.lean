import Mathlib.Data.List.Forall2
import AtScript.Proofs.Comparison
import AtScript.Proofs.Nesting

/-! # Runs in lockstep

Two runs over two lists of tokens stay in step as long as they meet the same tokens, apart from
their places. The lists may differ beyond what the runs look at: `remaining` relates what is left of
them, and `opened` relates what is left after the THEN of a condition.
-/

namespace AtScript

/-- Whether a token is a keyword that belongs to a branch or a loop. -/
def Token.isControl (token : Token) : Bool :=
  match token.role with
  | .keyword keyword => keyword.isControl
  | _ => false

/-- A token is taken for a keyword exactly when it spells one. -/
theorem Token.role_eq_keyword_iff {token : Token} {keyword : Keyword} :
    token.role = .keyword keyword ↔ Keyword.ofToken? token = some keyword := by
  obtain ⟨kind, text, span⟩ := token
  cases kind with
  | call =>
      simp only [Token.role, Token.isLiteral, Bool.false_eq_true, if_false]
      split <;> simp_all
  | word =>
      by_cases hat : (Token.mk .word text span).hasAt = true
      · simp only [Token.role, Token.isLiteral, hat, Bool.not_true, Bool.false_eq_true, if_false]
        split <;> simp_all
      · simp [Token.role, Token.isLiteral, Keyword.ofToken?, hat]
  | quoted | comma | close => simp [Token.role, Token.isLiteral, Keyword.ofToken?]

namespace Tolerance

/-- Two bounds on the number of steps. They may differ only when running out of steps is excused. -/
def Affords (tolerance : Tolerance) (budget budget' : Nat) : Prop :=
  budget = budget' ∨ budget ≤ budget' ∧ tolerance.excuses .outOfFuel

theorem Affords.pred {tolerance : Tolerance} {budget budget' : Nat}
    (hbudget : tolerance.Affords (budget + 1) budget') :
    ∃ budget'', budget' = budget'' + 1 ∧ tolerance.Affords budget budget'' := by
  rcases hbudget with rfl | ⟨hle, hexcuses⟩
  · exact ⟨budget, rfl, .inl rfl⟩
  · obtain ⟨extra, rfl⟩ := Nat.exists_eq_add_of_le hle
    exact ⟨budget + extra, by omega, .inr ⟨by omega, hexcuses⟩⟩

/-- Putting the same value into two bodies keeps their tokens the same. -/
theorem substitute {tolerance : Tolerance} {body body' : List Token}
    (hsame : List.Forall₂ tolerance.SameToken body body') (name value : String) :
    List.Forall₂ tolerance.SameToken (Exec.substitute name value body)
      (Exec.substitute name value body') := by
  rw [Exec.substitute, Exec.substitute, List.forall₂_map_left_iff, List.forall₂_map_right_iff]
  exact hsame.imp fun first second htoken => htoken.substitute ("$" ++ name) value

/-- Where every place counts, lists of such tokens are equal. -/
theorem forall₂_eq {tolerance : Tolerance} (hnear : tolerance.near = Eq) {body body' : List Token}
    (hsame : List.Forall₂ tolerance.SameToken body body') : body = body' := by
  rw [← List.forall₂_eq_eq_eq]
  exact hsame.imp fun first second (htoken : tolerance.SameToken first second) => htoken.eq hnear

/-- Two searches. What the first one finds the second one finds as well; where the first one finds
nothing neither does the second, unless everything is excused. -/
inductive FindsAlike {α β : Type} (tolerance : Tolerance) (related : α → β → Prop) :
    Option α → Option β → Prop
  | found {value : α} {other : β} (hrelated : related value other) :
      FindsAlike tolerance related (some value) (some other)
  | missing : FindsAlike tolerance related none none
  | excused {found : Option β} (hexcuses : ∀ stop, tolerance.excuses stop) :
      FindsAlike tolerance related none found

theorem FindsAlike.map {α β γ δ : Type} {tolerance : Tolerance} {related : α → β → Prop}
    {related' : γ → δ → Prop} {found : Option α} {found' : Option β}
    (hfound : tolerance.FindsAlike related found found') (change : α → γ) (change' : β → δ)
    (hchange : ∀ value other, related value other → related' (change value) (change' other)) :
    tolerance.FindsAlike related' (found.map change) (found'.map change') := by
  cases hfound with
  | found hrelated => exact .found (hchange _ _ hrelated)
  | missing => exact .missing
  | excused hexcuses => exact .excused hexcuses

end Tolerance

/-- A relation between the tokens left to two runs that keeps the runs in step. -/
structure Lockstep (tolerance : Tolerance) (remaining opened : List Token → List Token → Prop) :
    Prop where
  nil : ∀ {tokens}, remaining [] tokens → tokens = [] ∨ ∀ stop, tolerance.excuses stop
  cons : ∀ {token rest tokens}, remaining (token :: rest) tokens →
    ∃ token' rest', tokens = token' :: rest' ∧ tolerance.SameToken token token' ∧
      (Exec.conditionRole token = .ending → opened rest rest') ∧
      (Exec.conditionRole token ≠ .ending → remaining rest rest')

namespace Lockstep

variable {tolerance : Tolerance} {remaining : List Token → List Token → Prop}

/-- Where THEN is a token like any other, every token keeps the runs in step. -/
theorem cons_same (hstep : Lockstep tolerance remaining remaining) {token : Token}
    {rest tokens : List Token} (htokens : remaining (token :: rest) tokens) :
    ∃ token' rest', tokens = token' :: rest' ∧ tolerance.SameToken token token' ∧
      remaining rest rest' := by
  obtain ⟨token', rest', rfl, hsame, hopened, hrest⟩ := hstep.cons htokens
  refine ⟨token', rest', rfl, hsame, ?_⟩
  by_cases hending : Exec.conditionRole token = .ending
  · exact hopened hending
  · exact hrest hending

/-- Two ways to split off a block: the same tokens in it, and runs in step after it. -/
def SameParts (tolerance : Tolerance) (remaining : List Token → List Token → Prop)
    (parts parts' : List Token × List Token) : Prop :=
  List.Forall₂ tolerance.SameToken parts.1 parts'.1 ∧ remaining parts.2 parts'.2

/-- A block that ends for the first run ends at the same token for the second one. -/
theorem splitAtClose (hstep : Lockstep tolerance remaining remaining) {opening close : Keyword}
    (hne : opening ≠ close) (depth : Nat) {tokens tokens' : List Token}
    (htokens : remaining tokens tokens') :
    tolerance.FindsAlike (SameParts tolerance remaining)
      (Nesting.splitAtClose opening close depth tokens)
      (Nesting.splitAtClose opening close depth tokens') := by
  induction tokens generalizing depth tokens' with
  | nil =>
      rcases hstep.nil htokens with rfl | hexcuses
      · exact .missing
      · exact .excused hexcuses
  | cons token tail ih =>
      obtain ⟨token', tail', rfl, hsame, htail⟩ := hstep.cons_same htokens
      have heq := hsame.ofToken?_eq
      -- Where the token is passed over, the block ends further on.
      have hpass (depth' : Nat) : tolerance.FindsAlike (SameParts tolerance remaining)
          ((Nesting.splitAtClose opening close depth' tail).map
            fun parts => (token :: parts.1, parts.2))
          ((Nesting.splitAtClose opening close depth' tail').map
            fun parts => (token' :: parts.1, parts.2)) :=
        (ih depth' htail).map _ _ fun parts parts' hparts => ⟨.cons hsame hparts.1, hparts.2⟩
      by_cases hopening : Keyword.ofToken? token = some opening
      · rw [Nesting.splitAtClose_opening hopening, Nesting.splitAtClose_opening (heq ▸ hopening)]
        exact hpass (depth + 1)
      by_cases hclose : Keyword.ofToken? token = some close
      · cases depth with
        | zero =>
            rw [Nesting.splitAtClose_close_zero hne hclose,
              Nesting.splitAtClose_close_zero hne (heq ▸ hclose)]
            exact .found ⟨.nil, htail⟩
        | succ depth =>
            rw [Nesting.splitAtClose_close_succ hne hclose,
              Nesting.splitAtClose_close_succ hne (heq ▸ hclose)]
            exact hpass depth
      · rw [Nesting.splitAtClose_other hopening hclose,
          Nesting.splitAtClose_other (heq ▸ hopening) (heq ▸ hclose)]
        exact hpass depth

/-- A branch that ends for the first run ends at the same token for the second one. -/
theorem branchEnd? (hstep : Lockstep tolerance remaining remaining) (depth : Nat)
    {tokens tokens' : List Token} (htokens : remaining tokens tokens') :
    tolerance.FindsAlike
      (fun found found' => found.1 = found'.1 ∧ remaining found.2 found'.2)
      (Nesting.branchEnd? depth tokens) (Nesting.branchEnd? depth tokens') := by
  induction tokens generalizing depth tokens' with
  | nil =>
      rcases hstep.nil htokens with rfl | hexcuses
      · exact .missing
      · exact .excused hexcuses
  | cons token tail ih =>
      obtain ⟨token', tail', rfl, hsame, htail⟩ := hstep.cons_same htokens
      have heq : token.branch? = token'.branch? := by
        rw [Token.branch?, Token.branch?, hsame.ofToken?_eq]
      cases Nesting.branchRole token with
      | inert htoken =>
          rw [Nesting.branchEnd?_other htoken, Nesting.branchEnd?_other (heq ▸ htoken)]
          exact ih depth htail
      | opening htoken =>
          rw [Nesting.branchEnd?_ifWord htoken, Nesting.branchEnd?_ifWord (heq ▸ htoken)]
          exact ih (depth + 1) htail
      | separator kind htoken hseparator =>
          cases depth with
          | zero =>
              rw [Nesting.branchEnd?_zero kind htoken, Nesting.branchEnd?_zero kind (heq ▸ htoken)]
              exact .found ⟨rfl, htail⟩
          | succ depth =>
              rw [Nesting.branchEnd?_separator hseparator,
                Nesting.branchEnd?_separator (heq ▸ hseparator)]
              exact ih (depth + 1) htail
      | close htoken =>
          cases depth with
          | zero =>
              rw [Nesting.branchEnd?_zero .endIf htoken,
                Nesting.branchEnd?_zero .endIf (heq ▸ htoken)]
              exact .found ⟨rfl, htail⟩
          | succ depth =>
              rw [Nesting.branchEnd?_endIf htoken, Nesting.branchEnd?_endIf (heq ▸ htoken)]
              exact ih depth htail

end Lockstep

namespace Exec

variable {S α β : Type} {tolerance : Tolerance} {remaining opened : List Token → List Token → Prop}

/-- Runners that stay in step on commands other than branches and loops. -/
def InStep (tolerance : Tolerance) (remaining : List Token → List Token → Prop)
    (run run' : Runner S) : Prop :=
  ∀ token rest tokens, remaining (token :: rest) tokens → token.isControl = false →
    Follows tolerance remaining (run (token :: rest)) (run' tokens)

/-- Only THEN ends a condition. -/
theorem conditionRole_eq_ending_iff (token : Token) :
    conditionRole token = .ending ↔ token.branch? = some .thenWord := by
  rw [Token.branch?_eq_some_iff, ← Token.role_eq_keyword_iff, conditionRole]
  cases token.role with
  | keyword keyword =>
      cases keyword with
      | branch part => cases part <;> simp [Keyword.isControl, Keyword.isStructural]
      | connector word => cases word <;> simp
      | _ => simp [Keyword.isControl, Keyword.isStructural]
  | _ => simp

theorem conditionRole_ne_ending {token : Token} (hcontrol : token.isControl = false) :
    conditionRole token ≠ .ending := by
  intro hending
  rw [conditionRole_eq_ending_iff, Token.branch?_eq_some_iff, ← Token.role_eq_keyword_iff]
    at hending
  simp [Token.isControl, hending, Keyword.isControl, Keyword.isStructural] at hcontrol

/-- Out of steps, a run is followed by one that is out of steps as well. -/
theorem Follows.outOfFuel {budget : Nat} (related : α → β → Prop)
    (hbudget : tolerance.Affords 0 budget) (second : Exec S β)
    (hsecond : budget = 0 → second = MonadExcept.throw .outOfFuel) :
    Follows tolerance related (MonadExcept.throw .outOfFuel : Exec S α) second := by
  rcases hbudget with rfl | ⟨_, hexcuses⟩
  · rw [hsecond rfl]
    exact .throw .outOfFuel
  · exact .throw_of_excuses hexcuses second

theorem argumentsFrom_follows (hstep : Lockstep tolerance remaining opened) {run run' : Runner S}
    (hrun : InStep tolerance remaining run run') {opener opener' : Token}
    (hopener : tolerance.SameToken opener opener') {budget budget' : Nat}
    (hbudget : tolerance.Affords budget budget') (part : String) (begun : Bool)
    {tokens tokens' : List Token} (htokens : remaining tokens tokens') :
    Follows tolerance (fun value other => value.1 = other.1 ∧ remaining value.2 other.2)
      (argumentsFrom run opener budget part begun tokens)
      (argumentsFrom run' opener' budget' part begun tokens') := by
  induction budget generalizing budget' part begun tokens tokens' with
  | zero => exact .outOfFuel _ hbudget _ (by rintro rfl; rfl)
  | succ budget ih =>
      obtain ⟨budget', rfl, hless⟩ := hbudget.pred
      cases tokens with
      | nil =>
          rcases hstep.nil htokens with rfl | hexcuses
          · exact .fail _ hopener.near
          · exact .throw_of_excuses (hexcuses _) _
      | cons token rest =>
          obtain ⟨token', rest', rfl, hsame, -, hrest⟩ := hstep.cons htokens
          -- A command inside the arguments is run and then the rest of the part is read.
          have hcommand (hcontrol : token.isControl = false) :
              Follows tolerance (fun value other => value.1 = other.1 ∧ remaining value.2 other.2)
                (capture (run (token :: rest)) >>= fun value =>
                  argumentsFrom run opener budget (part ++ value.2) true value.1)
                (capture (run' (token' :: rest')) >>= fun value =>
                  argumentsFrom run' opener' budget' (part ++ value.2) true value.1) := by
            refine .bind (hrun token rest _ htokens hcontrol).capture ?_
            rintro ⟨after, text⟩ ⟨after', text'⟩ ⟨hafter, rfl⟩
            exact ih hless _ true hafter
          simp only [argumentsFrom, ← hsame.role_eq]
          cases hrole : token.role with
          | comma =>
              have hcontrol : token.isControl = false := by simp [Token.isControl, hrole]
              refine .bind (ih hless "" true (hrest (conditionRole_ne_ending hcontrol))) ?_
              rintro ⟨others, after⟩ ⟨others', after'⟩ ⟨rfl, hafter⟩
              exact .pure ⟨rfl, hafter⟩
          | close =>
              have hcontrol : token.isControl = false := by simp [Token.isControl, hrole]
              exact .pure ⟨rfl, hrest (conditionRole_ne_ending hcontrol)⟩
          | literal value =>
              have hcontrol : token.isControl = false := by simp [Token.isControl, hrole]
              exact ih hless _ true (hrest (conditionRole_ne_ending hcontrol))
          | keyword keyword =>
              dsimp only
              split
              next =>
                rw [hsame.text]
                exact .fail _ hsame.near
              next hcontrol =>
                exact hcommand (by simpa [Token.isControl, hrole] using hcontrol)
          | stored => exact hcommand (by simp [Token.isControl, hrole])

theorem arguments_follows (hstep : Lockstep tolerance remaining opened) {run run' : Runner S}
    (hrun : InStep tolerance remaining run run') {command command' : Token}
    (hcommand : tolerance.SameToken command command') {budget budget' : Nat}
    (hbudget : tolerance.Affords budget budget') {rest rest' : List Token}
    (hrest : remaining rest rest') :
    Follows tolerance (fun value other => value.1 = other.1 ∧ remaining value.2 other.2)
      (arguments budget run command rest) (arguments budget' run' command' rest') := by
  rw [arguments, arguments, ← hcommand.kind]
  split
  · exact argumentsFrom_follows hstep hrun hcommand hbudget "" false hrest
  · exact .pure ⟨rfl, hrest⟩

theorem checkArity_follows {command command' : Token}
    (hcommand : tolerance.SameToken command command') (arity : Arity) (found : Nat) :
    Follows (S := S) tolerance Eq (checkArity command arity found)
      (checkArity command' arity found) := by
  rw [checkArity, checkArity, ← hcommand.text]
  split
  · exact .pure rfl
  · exact .fail _ hcommand.near

/-- A part of a condition is no control keyword. -/
theorem isControl_of_part {token : Token} (hpart : conditionRole token = .part) :
    token.isControl = false := by
  rw [conditionRole] at hpart
  rw [Token.isControl]
  split at hpart <;> simp_all

theorem conditionFrom_follows (hstep : Lockstep tolerance remaining opened) {run run' : Runner S}
    (hrun : InStep tolerance remaining run run') {ifSpan ifSpan' : Span}
    (hspan : tolerance.near ifSpan ifSpan') {budget budget' : Nat}
    (hbudget : tolerance.Affords budget budget') (condition : PartialCondition)
    {tokens tokens' : List Token} (htokens : remaining tokens tokens') :
    Follows tolerance (fun value other => value.1 = other.1 ∧ opened value.2 other.2)
      (conditionFrom run ifSpan budget condition tokens)
      (conditionFrom run' ifSpan' budget' condition tokens') := by
  induction budget generalizing budget' condition tokens tokens' with
  | zero => exact .outOfFuel _ hbudget _ (by rintro rfl; rfl)
  | succ budget ih =>
      obtain ⟨budget', rfl, hless⟩ := hbudget.pred
      cases tokens with
      | nil =>
          rcases hstep.nil htokens with rfl | hexcuses
          · exact .fail _ hspan
          · exact .throw_of_excuses (hexcuses _) _
      | cons token rest =>
          obtain ⟨token', rest', rfl, hsame, hopened, hrest⟩ := hstep.cons htokens
          simp only [conditionFrom, ← hsame.conditionRole_eq, ← hsame.text]
          cases hrole : conditionRole token with
          | refused => exact .fail _ hsame.near
          | ending =>
              dsimp only
              split
              · exact .fail _ hsame.near
              · exact .pure ⟨rfl, hopened hrole⟩
          | negation => exact ih hless _ (hrest (by simp [hrole]))
          | connector conjunction =>
              dsimp only
              split
              · exact .fail _ hsame.near
              · exact ih hless _ (hrest (by simp [hrole]))
          | part =>
              dsimp only
              split
              · have hpart : Follows tolerance
                    (fun value other => remaining value.1 other.1 ∧ value.2 = other.2)
                    (conditionPart run token rest) (conditionPart run' token' rest') := by
                  rw [conditionPart, conditionPart, ← hsame.isLiteral_eq, ← hsame.literalValue_eq]
                  split
                  · exact .pure ⟨hrest (by simp [hrole]), rfl⟩
                  · exact (hrun token rest _ htokens (isControl_of_part hrole)).capture
                refine hpart.bind ?_
                rintro ⟨after, text⟩ ⟨after', text'⟩ ⟨hafter, rfl⟩
                refine (Follows.ofValue hsame.near (Value.toBool text)).bind ?_
                rintro truth _ rfl
                exact ih hless _ hafter
              · exact .fail _ hsame.near

end Exec

end AtScript
