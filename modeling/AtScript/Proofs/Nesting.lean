import AtScript.Engine.Nesting

/-! # Where blocks end

The end of a block is the first close that has no opening of its own. Counting finds it: before it
no close lacks an opening, and all openings have been closed. Tokens that open and close blocks only
as a whole are passed over.
-/

namespace AtScript.Nesting

variable {opening close : Keyword}

theorem loop_ne_endLoop (family : LoopFamily) : Keyword.loop family ≠ .endLoop family := nofun

theorem ifWord_ne_endIf : Keyword.branch .ifWord ≠ .branch .endIf := by decide

/-- The number of tokens that spell a keyword. -/
def occurrences (keyword : Keyword) (tokens : List Token) : Nat :=
  tokens.countP (Keyword.ofToken? · = some keyword)

@[simp] theorem occurrences_nil (keyword : Keyword) : occurrences keyword [] = 0 := rfl

theorem occurrences_cons_of_eq {keyword : Keyword} {token : Token} {rest : List Token}
    (htoken : Keyword.ofToken? token = some keyword) :
    occurrences keyword (token :: rest) = occurrences keyword rest + 1 :=
  List.countP_cons_of_pos (by simpa using htoken)

theorem occurrences_cons_of_ne {keyword : Keyword} {token : Token} {rest : List Token}
    (htoken : Keyword.ofToken? token ≠ some keyword) :
    occurrences keyword (token :: rest) = occurrences keyword rest :=
  List.countP_cons_of_neg (by simpa using htoken)

/-- Tokens that close all they open and `depth` earlier openings, each after it was opened. -/
structure Balanced (opening close : Keyword) (depth : Nat) (tokens : List Token) : Prop where
  /-- No close comes before its opening. -/
  covered : ∀ initial, initial <+: tokens →
    occurrences close initial ≤ occurrences opening initial + depth
  /-- No opening is left. -/
  settled : occurrences close tokens = occurrences opening tokens + depth

/-! ## One token at a time -/

theorem splitAtClose_opening {token : Token} (htoken : Keyword.ofToken? token = some opening)
    (depth : Nat) (rest : List Token) :
    splitAtClose opening close depth (token :: rest) =
      (splitAtClose opening close (depth + 1) rest).map
        fun parts => (token :: parts.1, parts.2) := by
  cases depth <;> simp only [splitAtClose, if_pos htoken]

theorem splitAtClose_other {token : Token} (hopening : Keyword.ofToken? token ≠ some opening)
    (hclose : Keyword.ofToken? token ≠ some close) (depth : Nat) (rest : List Token) :
    splitAtClose opening close depth (token :: rest) =
      (splitAtClose opening close depth rest).map fun parts => (token :: parts.1, parts.2) := by
  cases depth <;> simp only [splitAtClose, if_neg hopening, if_neg hclose]

theorem splitAtClose_close_zero (hne : opening ≠ close) {token : Token}
    (htoken : Keyword.ofToken? token = some close) (rest : List Token) :
    splitAtClose opening close 0 (token :: rest) = some ([], rest) := by
  have hopening : Keyword.ofToken? token ≠ some opening := by
    rw [htoken]
    exact fun heq => hne (Option.some.inj heq).symm
  simp only [splitAtClose, if_neg hopening, if_pos htoken]

theorem splitAtClose_close_succ (hne : opening ≠ close) {token : Token}
    (htoken : Keyword.ofToken? token = some close) (depth : Nat) (rest : List Token) :
    splitAtClose opening close (depth + 1) (token :: rest) =
      (splitAtClose opening close depth rest).map fun parts => (token :: parts.1, parts.2) := by
  have hopening : Keyword.ofToken? token ≠ some opening := by
    rw [htoken]
    exact fun heq => hne (Option.some.inj heq).symm
  simp only [splitAtClose, if_neg hopening, if_pos htoken]

/-! ## The first close without an opening -/

theorem Balanced.cons_iff {depth depth' : Nat} {token : Token} {rest : List Token}
    (hcount : ∀ tokens, occurrences close (token :: tokens) + depth' + occurrences opening tokens =
      occurrences opening (token :: tokens) + depth + occurrences close tokens) :
    Balanced opening close depth (token :: rest) ↔ Balanced opening close depth' rest := by
  constructor
  · rintro ⟨hcovered, hsettled⟩
    refine ⟨fun initial hinitial => ?_, ?_⟩
    · have := hcovered (token :: initial) (List.cons_prefix_cons.mpr ⟨rfl, hinitial⟩)
      have := hcount initial
      omega
    · have := hcount rest
      omega
  · rintro ⟨hcovered, hsettled⟩
    refine ⟨fun initial hinitial => ?_, ?_⟩
    -- The empty prefix is new, all others have the token at their front.
    · rcases List.prefix_cons_iff.mp hinitial with rfl | ⟨initial', rfl, hinitial'⟩
      · simp
      · have := hcovered initial' hinitial'
        have := hcount initial'
        omega
    · have := hcount rest
      omega

theorem Balanced.opening_cons_iff (hne : opening ≠ close) {depth : Nat} {token : Token}
    {rest : List Token} (htoken : Keyword.ofToken? token = some opening) :
    Balanced opening close depth (token :: rest) ↔ Balanced opening close (depth + 1) rest := by
  refine Balanced.cons_iff fun tokens => ?_
  rw [occurrences_cons_of_eq htoken, occurrences_cons_of_ne (by simpa [htoken] using hne)]
  omega

theorem Balanced.close_cons_iff (hne : opening ≠ close) {depth : Nat} {token : Token}
    {rest : List Token} (htoken : Keyword.ofToken? token = some close) :
    Balanced opening close (depth + 1) (token :: rest) ↔ Balanced opening close depth rest := by
  refine Balanced.cons_iff fun tokens => ?_
  rw [occurrences_cons_of_eq htoken, occurrences_cons_of_ne (by simpa [htoken] using hne.symm)]
  omega

theorem Balanced.other_cons_iff {depth : Nat} {token : Token} {rest : List Token}
    (hopening : Keyword.ofToken? token ≠ some opening)
    (hclose : Keyword.ofToken? token ≠ some close) :
    Balanced opening close depth (token :: rest) ↔ Balanced opening close depth rest := by
  refine Balanced.cons_iff fun tokens => ?_
  rw [occurrences_cons_of_ne hopening, occurrences_cons_of_ne hclose]
  omega

/-- A close that nothing covers ends all balance. -/
theorem Balanced.not_close_cons (hne : opening ≠ close) {token : Token} {rest : List Token}
    (htoken : Keyword.ofToken? token = some close) :
    ¬Balanced opening close 0 (token :: rest) := by
  rintro ⟨hcovered, -⟩
  have hfirst := hcovered [token] (List.cons_prefix_cons.mpr ⟨rfl, List.nil_prefix⟩)
  rw [occurrences_cons_of_eq htoken, occurrences_cons_of_ne (by simpa [htoken] using hne.symm)]
    at hfirst
  simp at hfirst

/-- The end of a block is the close before which everything is balanced. -/
theorem splitAtClose_eq_some_iff (hne : opening ≠ close) {depth : Nat}
    {tokens body rest : List Token} :
    splitAtClose opening close depth tokens = some (body, rest) ↔
      ∃ token, tokens = body ++ token :: rest ∧ Keyword.ofToken? token = some close ∧
        Balanced opening close depth body := by
  induction tokens generalizing depth body with
  | nil => simp [splitAtClose]
  | cons token tail ih =>
      -- A token that is passed over is the first of the body.
      have hpass {depth' : Nat}
          (hsplit : splitAtClose opening close depth (token :: tail) =
            (splitAtClose opening close depth' tail).map fun parts => (token :: parts.1, parts.2))
          (hclose : Keyword.ofToken? token = some close → depth ≠ 0)
          (hbalanced : ∀ inner, Balanced opening close depth (token :: inner) ↔
            Balanced opening close depth' inner) :
          splitAtClose opening close depth (token :: tail) = some (body, rest) ↔
            ∃ last, token :: tail = body ++ last :: rest ∧ Keyword.ofToken? last = some close ∧
              Balanced opening close depth body := by
        rw [hsplit, Option.map_eq_some_iff]
        constructor
        · rintro ⟨⟨inner, after⟩, hinner, heq⟩
          cases heq
          obtain ⟨last, rfl, hlast, hinner⟩ := ih.mp hinner
          exact ⟨last, rfl, hlast, (hbalanced inner).mpr hinner⟩
        · rintro ⟨last, heq, hlast, hbody⟩
          cases body with
          | nil =>
              cases heq
              have hdepth : 0 = 0 + depth := hbody.settled
              exact absurd (by omega) (hclose hlast)
          | cons first inner =>
              cases heq
              exact ⟨(inner, rest), ih.mpr ⟨last, rfl, hlast, (hbalanced inner).mp hbody⟩, rfl⟩
      by_cases hopening : Keyword.ofToken? token = some opening
      · refine hpass (splitAtClose_opening hopening depth tail) ?_
          fun _ => Balanced.opening_cons_iff hne hopening
        intro hclose
        exact absurd (Option.some.inj (hopening.symm.trans hclose)) hne
      by_cases hclose : Keyword.ofToken? token = some close
      · cases depth with
        | succ depth =>
            exact hpass (splitAtClose_close_succ hne hclose depth tail)
              (fun _ => Nat.succ_ne_zero depth) fun _ => Balanced.close_cons_iff hne hclose
        | zero =>
            rw [splitAtClose_close_zero hne hclose]
            constructor
            · intro heq
              cases heq
              exact ⟨token, rfl, hclose, ⟨by simp, rfl⟩⟩
            · rintro ⟨last, heq, -, hbody⟩
              cases body with
              | nil =>
                  cases heq
                  rfl
              | cons first inner =>
                  cases heq
                  exact absurd hbody (Balanced.not_close_cons hne hclose)
      · exact hpass (splitAtClose_other hopening hclose depth tail)
          (fun hfound => absurd hfound hclose) fun _ => Balanced.other_cons_iff hopening hclose

/-! ## Whole blocks are passed over -/

/-- Tokens that the search for the end of a block passes over, whatever follows them. -/
def PassedOver (opening close : Keyword) (body : List Token) : Prop :=
  ∀ depth rest, splitAtClose opening close depth (body ++ rest) =
    (splitAtClose opening close depth rest).map fun parts => (body ++ parts.1, parts.2)

namespace PassedOver

theorem nil : PassedOver opening close [] := by
  intro depth rest
  simp

theorem append {first second : List Token} (hfirst : PassedOver opening close first)
    (hsecond : PassedOver opening close second) : PassedOver opening close (first ++ second) := by
  intro depth rest
  rw [List.append_assoc, hfirst, hsecond, Option.map_map]
  simp [Function.comp_def]

theorem cons {token : Token} {rest : List Token} (hopening : Keyword.ofToken? token ≠ some opening)
    (hclose : Keyword.ofToken? token ≠ some close) (hrest : PassedOver opening close rest) :
    PassedOver opening close (token :: rest) := by
  intro depth tail
  rw [List.cons_append, splitAtClose_other hopening hclose, hrest, Option.map_map]
  simp [Function.comp_def]

/-- A block is passed over when what it holds is. -/
theorem block (hne : opening ≠ close) {first last : Token} {body : List Token}
    (hfirst : Keyword.ofToken? first = some opening) (hbody : PassedOver opening close body)
    (hlast : Keyword.ofToken? last = some close) :
    PassedOver opening close (first :: (body ++ [last])) := by
  intro depth rest
  rw [List.cons_append, List.append_assoc, splitAtClose_opening hfirst, hbody,
    List.singleton_append, splitAtClose_close_succ hne hlast, Option.map_map, Option.map_map]
  simp [Function.comp_def]

/-- The block that surrounds such tokens ends right after them. -/
theorem splitAtClose_eq (hne : opening ≠ close) {body rest : List Token} {last : Token}
    (hbody : PassedOver opening close body) (hlast : Keyword.ofToken? last = some close) :
    splitAtClose opening close 0 (body ++ last :: rest) = some (body, rest) := by
  rw [hbody, splitAtClose_close_zero hne hlast]
  simp

end PassedOver

end AtScript.Nesting

namespace AtScript

/-- The branch keyword that a token spells. -/
def Token.branch? (token : Token) : Option Branch :=
  match Keyword.ofToken? token with
  | some (.branch part) => some part
  | _ => none

theorem Token.branch?_eq_some_iff (token : Token) (part : Branch) :
    token.branch? = some part ↔ Keyword.ofToken? token = some (.branch part) := by
  rw [Token.branch?]
  split <;> simp_all

namespace Nesting

/-- Tokens in which IF and ENDIF nest. An ELSEIF or ELSE belongs to an IF among them or, when
`inside`, to one around them. -/
inductive BranchBalanced : Bool → List Token → Prop
  | nil {inside : Bool} : BranchBalanced inside []
  | other {inside : Bool} {token : Token} {rest : List Token}
      (htoken : token.branch? = none ∨ token.branch? = some .thenWord)
      (hrest : BranchBalanced inside rest) : BranchBalanced inside (token :: rest)
  | separator {token : Token} {rest : List Token}
      (htoken : token.branch? = some .elseIf ∨ token.branch? = some .elseWord)
      (hrest : BranchBalanced true rest) : BranchBalanced true (token :: rest)
  | block {inside : Bool} {first last : Token} {body rest : List Token}
      (hfirst : first.branch? = some .ifWord) (hbody : BranchBalanced true body)
      (hlast : last.branch? = some .endIf) (hrest : BranchBalanced inside rest) :
      BranchBalanced inside (first :: (body ++ last :: rest))

theorem branchEnd?_other {token : Token}
    (htoken : token.branch? = none ∨ token.branch? = some .thenWord) (depth : Nat)
    (rest : List Token) : branchEnd? depth (token :: rest) = branchEnd? depth rest := by
  have hne (part : Branch) (hpart : part ≠ .thenWord) :
      Keyword.ofToken? token ≠ some (.branch part) := by
    rw [Ne, ← Token.branch?_eq_some_iff]
    rcases htoken with htoken | htoken <;> simp [htoken, hpart.symm]
  rw [branchEnd?.eq_def]
  dsimp only
  split
  case h_6 => rfl
  all_goals exact absurd ‹Keyword.ofToken? token = _› (hne _ (by decide))

theorem branchEnd?_ifWord {token : Token} (htoken : token.branch? = some .ifWord) (depth : Nat)
    (rest : List Token) : branchEnd? depth (token :: rest) = branchEnd? (depth + 1) rest := by
  rw [Token.branch?_eq_some_iff] at htoken
  simp [branchEnd?, htoken]

theorem branchEnd?_separator {token : Token}
    (htoken : token.branch? = some .elseIf ∨ token.branch? = some .elseWord) (depth : Nat)
    (rest : List Token) : branchEnd? (depth + 1) (token :: rest) = branchEnd? (depth + 1) rest := by
  rw [Token.branch?_eq_some_iff, Token.branch?_eq_some_iff] at htoken
  rcases htoken with htoken | htoken <;> simp [branchEnd?, htoken]

theorem branchEnd?_endIf {token : Token} (htoken : token.branch? = some .endIf) (depth : Nat)
    (rest : List Token) : branchEnd? (depth + 1) (token :: rest) = branchEnd? depth rest := by
  rw [Token.branch?_eq_some_iff] at htoken
  simp [branchEnd?, htoken]

/-- The keyword that ends a branch. -/
def BranchEnd.keyword : BranchEnd → Branch
  | .elseIf => .elseIf
  | .elseWord => .elseWord
  | .endIf => .endIf

theorem branchEnd?_zero {token : Token} (kind : BranchEnd)
    (htoken : token.branch? = some kind.keyword) (rest : List Token) :
    branchEnd? 0 (token :: rest) = some (kind, rest) := by
  rw [Token.branch?_eq_some_iff] at htoken
  cases kind <;> simp only [BranchEnd.keyword] at htoken <;> simp [branchEnd?, htoken]

/-- What a token does to the branch that it stands in. -/
inductive BranchRole (token : Token) : Prop
  /-- It is passed over. -/
  | inert (htoken : token.branch? = none ∨ token.branch? = some .thenWord)
  /-- It opens a nested chain. -/
  | opening (htoken : token.branch? = some .ifWord)
  /-- It ends the branch, but not the chain. -/
  | separator (kind : BranchEnd) (htoken : token.branch? = some kind.keyword)
      (hseparator : token.branch? = some .elseIf ∨ token.branch? = some .elseWord)
  /-- It ends the chain. -/
  | close (htoken : token.branch? = some .endIf)

theorem branchRole (token : Token) : BranchRole token := by
  cases htoken : token.branch? with
  | none => exact .inert (.inl htoken)
  | some part =>
      cases part with
      | ifWord => exact .opening htoken
      | thenWord => exact .inert (.inr htoken)
      | elseIf => exact .separator .elseIf htoken (.inl htoken)
      | elseWord => exact .separator .elseWord htoken (.inr htoken)
      | endIf => exact .close htoken

namespace BranchBalanced

variable {inside : Bool} {body : List Token}

/-- Tokens without a branch keyword are balanced. -/
theorem of_forall (hbody : ∀ token ∈ body, token.branch? = none) : BranchBalanced inside body := by
  induction body with
  | nil => exact .nil
  | cons token rest ih =>
      rw [List.forall_mem_cons] at hbody
      exact .other (.inl hbody.1) (ih hbody.2)

/-- The search for the end of a branch passes over balanced tokens. -/
theorem branchEnd?_append (hbody : BranchBalanced inside body) {depth : Nat}
    (hdepth : inside = true → depth ≠ 0) (tail : List Token) :
    branchEnd? depth (body ++ tail) = branchEnd? depth tail := by
  induction hbody generalizing depth tail with
  | nil => rfl
  | other htoken _ ih => rw [List.cons_append, branchEnd?_other htoken, ih hdepth]
  | separator htoken _ ih =>
      obtain ⟨depth, rfl⟩ := Nat.exists_eq_succ_of_ne_zero (hdepth rfl)
      rw [List.cons_append, branchEnd?_separator htoken, ih hdepth]
  | block hfirst _ hlast _ ihbody ihrest =>
      rw [List.cons_append, List.append_assoc, branchEnd?_ifWord hfirst,
        ihbody fun _ => Nat.succ_ne_zero depth, List.cons_append, branchEnd?_endIf hlast,
        ihrest hdepth]

/-- So does the search for the end of the chain. -/
theorem passedOver (hbody : BranchBalanced inside body) :
    PassedOver (.branch .ifWord) (.branch .endIf) body := by
  induction hbody with
  | nil => exact .nil
  | other htoken _ ih =>
      refine .cons ?_ ?_ ih <;> rw [Ne, ← Token.branch?_eq_some_iff] <;>
        rcases htoken with htoken | htoken <;> simp [htoken]
  | separator htoken _ ih =>
      refine .cons ?_ ?_ ih <;> rw [Ne, ← Token.branch?_eq_some_iff] <;>
        rcases htoken with htoken | htoken <;> simp [htoken]
  | block hfirst _ hlast _ ihbody ihrest =>
      rw [Token.branch?_eq_some_iff] at hfirst hlast
      rw [List.append_cons, ← List.cons_append]
      exact (PassedOver.block ifWord_ne_endIf hfirst ihbody hlast).append ihrest

end BranchBalanced

end Nesting

end AtScript
