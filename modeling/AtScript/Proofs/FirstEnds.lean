import AtScript.Proofs.GuardedMachine

/-! # The first end of a block

The end of a block is searched for with a counter, and that of a chain of branches also from branch
to branch, with a counter that starts anew behind each ELSEIF and ELSE. What the searches find can
be said without counters: it is the first place up to which more blocks end than begin.
-/

namespace AtScript.Nesting

/-! ## Searches -/

/-- The outcome of a search: what has a property, at the first place of all that has it, or nothing
when nothing has it. -/
inductive First {α : Type} (place : α → Nat) (property : α → Prop) : Option α → Prop
  | found {result : α} (hresult : property result)
      (hfirst : ∀ other, property other → place result ≤ place other) :
      First place property (some result)
  | missing (hnone : ∀ other, ¬property other) : First place property none

/-- What is first stays first when everything is moved by the same distance. -/
theorem First.map {α β : Type} {place : α → Nat} {property : α → Prop} {property' : β → Prop}
    {found : Option α} (hfirst : First place property found) (place' : β → Nat) {move : α → β}
    (hplace : ∀ a b, place a ≤ place b → place' (move a) ≤ place' (move b))
    (hmove : ∀ b, property' b ↔ ∃ a, property a ∧ move a = b) :
    First place' property' (found.map move) := by
  cases hfirst with
  | found hresult hfirst =>
      refine .found ((hmove _).mpr ⟨_, hresult, rfl⟩) fun other hother => ?_
      obtain ⟨a, ha, rfl⟩ := (hmove other).mp hother
      exact hplace _ a (hfirst a ha)
  | missing hnone =>
      refine .missing fun other hother => ?_
      obtain ⟨a, ha, -⟩ := (hmove other).mp hother
      exact hnone a ha

/-! ## Ends of blocks -/

/-- From `start` up to `place`, itself included, there are more closes than openings, even when
`depth` openings before `start` are added. -/
structure MoreCloses (opening close : Keyword) (depth : Nat) (tokens : List Token)
    (start place : Nat) : Prop where
  reached : start ≤ place
  inside : place < tokens.length
  more : occurrences opening (tokens.extract start (place + 1)) + depth <
    occurrences close (tokens.extract start (place + 1))

/-- What can end the branch that the tokens from `start` on are in, and the place where it stands.
In that branch, `depth` chains were opened before `start`. -/
inductive EndsBranch (depth : Nat) (tokens : List Token) (start : Nat) : BranchEnd × Nat → Prop
  /-- An ENDIF up to which more chains end than begin. -/
  | endIf {place : Nat} {token : Token} (htoken : tokens[place]? = some token)
      (hbranch : token.branch? = some .endIf)
      (hmore : MoreCloses (.branch .ifWord) (.branch .endIf) depth tokens start place) :
      EndsBranch depth tokens start (.endIf, place)
  /-- An ELSEIF or ELSE before which as many chains end as begin. -/
  | separator {kind : BranchEnd} {place : Nat} {token : Token} (hkind : kind ≠ .endIf)
      (hreached : start ≤ place) (htoken : tokens[place]? = some token)
      (hbranch : token.branch? = some kind.keyword)
      (hequal : occurrences (.branch .ifWord) (tokens.extract start place) + depth =
        occurrences (.branch .endIf) (tokens.extract start place)) :
      EndsBranch depth tokens start (kind, place)

theorem occurrences_singleton (keyword : Keyword) (token : Token) :
    occurrences keyword [token] = if Keyword.ofToken? token = some keyword then 1 else 0 := by
  rw [occurrences, List.countP_singleton]
  simp

theorem occurrences_branch (part : Branch) (token : Token) :
    occurrences (.branch part) [token] = if token.branch? = some part then 1 else 0 := by
  simp only [occurrences_singleton, Token.branch?_eq_some_iff]

theorem occurrences_extract_cons (keyword : Keyword) (token : Token) (rest : List Token)
    (stop : Nat) :
    occurrences keyword ((token :: rest).extract 0 (stop + 1)) =
      occurrences keyword [token] + occurrences keyword (rest.extract 0 stop) := by
  change occurrences keyword ([token] ++ rest.extract 0 stop) = _
  exact List.countP_append

namespace MoreCloses

variable {opening close : Keyword}

/-- A token that leaves `inner` blocks open is passed over. -/
theorem cons_iff {depth inner : Nat} {token : Token}
    (hcount : occurrences close [token] + inner = occurrences opening [token] + depth)
    (rest : List Token) (place : Nat) :
    MoreCloses opening close depth (token :: rest) 0 place ↔
      ∃ next, MoreCloses opening close inner rest 0 next ∧ next + 1 = place := by
  constructor
  · rintro ⟨-, hinside, hmore⟩
    rw [occurrences_extract_cons, occurrences_extract_cons] at hmore
    cases place with
    | zero =>
        have hnone (keyword : Keyword) : occurrences keyword (rest.extract 0 0) = 0 := rfl
        rw [hnone, hnone] at hmore
        omega
    | succ place => exact ⟨place, ⟨Nat.zero_le _, Nat.lt_of_succ_lt_succ hinside, by omega⟩, rfl⟩
  · rintro ⟨next, ⟨-, hinside, hmore⟩, rfl⟩
    refine ⟨Nat.zero_le _, Nat.succ_lt_succ hinside, ?_⟩
    rw [occurrences_extract_cons, occurrences_extract_cons]
    omega

theorem drop_iff (depth : Nat) (tokens : List Token) (start place : Nat) :
    MoreCloses opening close depth tokens start place ↔
      ∃ next, MoreCloses opening close depth (tokens.drop start) 0 next ∧ start + next = place := by
  constructor
  · rintro ⟨hreached, hinside, hmore⟩
    obtain ⟨next, rfl⟩ := Nat.exists_eq_add_of_le hreached
    refine ⟨next, ⟨Nat.zero_le _, ?_, ?_⟩, rfl⟩
    · rw [List.length_drop]
      omega
    · rw [Nat.add_assoc] at hmore
      simpa [List.extract] using hmore
  · rintro ⟨next, ⟨-, hinside, hmore⟩, rfl⟩
    rw [List.length_drop] at hinside
    refine ⟨Nat.le_add_right _ _, by omega, ?_⟩
    rw [Nat.add_assoc]
    simpa [List.extract] using hmore

end MoreCloses

namespace EndsBranch

/-- A token that leaves `inner` chains open is passed over, unless it separates the branch from the
next one. -/
theorem cons_iff {depth inner : Nat} {token : Token}
    (hcount : occurrences (.branch .endIf) [token] + inner =
      occurrences (.branch .ifWord) [token] + depth)
    (hpass : ∀ kind : BranchEnd, kind ≠ .endIf → token.branch? = some kind.keyword → depth ≠ 0)
    (rest : List Token) (found : BranchEnd × Nat) :
    EndsBranch depth (token :: rest) 0 found ↔
      ∃ next, EndsBranch inner rest 0 next ∧ Prod.map id (· + 1) next = found := by
  constructor
  · intro hends
    cases hends with
    | endIf htoken hbranch hmore =>
        obtain ⟨next, hnext, rfl⟩ := (MoreCloses.cons_iff hcount rest _).mp hmore
        exact ⟨(.endIf, next), .endIf htoken hbranch hnext, rfl⟩
    | @separator kind place other hkind _ htoken hbranch hequal =>
        cases place with
        | zero =>
            -- At the first place nothing is counted yet, and no chain may be open.
            obtain rfl := Option.some.inj htoken
            have hzero : 0 + depth = 0 := hequal
            exact absurd (by omega) (hpass kind hkind hbranch)
        | succ place =>
            rw [occurrences_extract_cons, occurrences_extract_cons] at hequal
            exact ⟨(kind, place), .separator hkind (Nat.zero_le _) htoken hbranch (by omega), rfl⟩
  · rintro ⟨next, hends, rfl⟩
    cases hends with
    | endIf htoken hbranch hmore =>
        exact .endIf htoken hbranch ((MoreCloses.cons_iff hcount rest _).mpr ⟨_, hmore, rfl⟩)
    | separator hkind _ htoken hbranch hequal =>
        refine .separator hkind (Nat.zero_le _) htoken hbranch ?_
        rw [occurrences_extract_cons, occurrences_extract_cons]
        omega

theorem drop_iff (depth : Nat) (tokens : List Token) (start : Nat) (found : BranchEnd × Nat) :
    EndsBranch depth tokens start found ↔
      ∃ next, EndsBranch depth (tokens.drop start) 0 next ∧
        Prod.map id (start + ·) next = found := by
  constructor
  · intro hends
    cases hends with
    | endIf htoken hbranch hmore =>
        obtain ⟨next, hnext, rfl⟩ := (MoreCloses.drop_iff depth tokens start _).mp hmore
        exact ⟨(.endIf, next), .endIf (by rwa [List.getElem?_drop]) hbranch hnext, rfl⟩
    | @separator kind place _ hkind hreached htoken hbranch hequal =>
        obtain ⟨next, rfl⟩ := Nat.exists_eq_add_of_le hreached
        refine ⟨(kind, next), .separator hkind (Nat.zero_le _) (by rwa [List.getElem?_drop])
          hbranch ?_, rfl⟩
        simpa [List.extract] using hequal
  · rintro ⟨next, hends, rfl⟩
    cases hends with
    | endIf htoken hbranch hmore =>
        rw [List.getElem?_drop] at htoken
        exact .endIf htoken hbranch
          ((MoreCloses.drop_iff depth tokens start _).mpr ⟨_, hmore, rfl⟩)
    | separator hkind _ htoken hbranch hequal =>
        rw [List.getElem?_drop] at htoken
        refine .separator hkind (Nat.le_add_right _ _) htoken hbranch ?_
        simpa [List.extract] using hequal

theorem reached {depth : Nat} {tokens : List Token} {start : Nat} {found : BranchEnd × Nat}
    (hends : EndsBranch depth tokens start found) : start ≤ found.2 := by
  cases hends with
  | endIf _ _ hmore => exact hmore.reached
  | separator _ hreached => exact hreached

theorem lt_length {depth : Nat} {tokens : List Token} {start : Nat} {found : BranchEnd × Nat}
    (hends : EndsBranch depth tokens start found) : found.2 < tokens.length := by
  cases hends with
  | endIf htoken | separator _ _ htoken => exact (List.getElem?_eq_some_iff.mp htoken).1

end EndsBranch

/-! ## Searching with one counter -/

/-- The place of the keyword `close` that ends the block whose tokens begin at `start`. -/
def closePlace? (opening close : Keyword) (tokens : List Token) (start : Nat) : Option Nat :=
  (splitAtClose opening close 0 (tokens.drop start)).map fun parts => start + parts.1.length

section

variable {opening close : Keyword} (hne : opening ≠ close)

include hne

theorem first_splitAtClose (depth : Nat) (tokens : List Token) :
    First id (MoreCloses opening close depth tokens 0)
      ((splitAtClose opening close depth tokens).map fun parts => parts.1.length) := by
  induction tokens generalizing depth with
  | nil => exact .missing fun place hmore => absurd hmore.inside (Nat.not_lt_zero place)
  | cons token rest ih =>
      -- The first end behind a token that is passed over is one place further on.
      have hpass {inner : Nat}
          (hsplit : splitAtClose opening close depth (token :: rest) =
            (splitAtClose opening close inner rest).map fun parts => (token :: parts.1, parts.2))
          (hcount : occurrences close [token] + inner = occurrences opening [token] + depth) :
          First id (MoreCloses opening close depth (token :: rest) 0)
            ((splitAtClose opening close depth (token :: rest)).map
              fun parts => parts.1.length) := by
        have hnext := (ih inner).map id (fun _ _ => Nat.succ_le_succ)
          (MoreCloses.cons_iff hcount rest)
        rw [hsplit, Option.map_map]
        rwa [Option.map_map] at hnext
      by_cases hopening : Keyword.ofToken? token = some opening
      · refine hpass (splitAtClose_opening hopening depth rest) ?_
        simp [occurrences_singleton, hopening, hne, Nat.add_comm]
      by_cases hclose : Keyword.ofToken? token = some close
      · cases depth with
        | succ depth =>
            refine hpass (splitAtClose_close_succ hne hclose depth rest) ?_
            simp [occurrences_singleton, hclose, hne.symm, Nat.add_comm]
        | zero =>
            rw [splitAtClose_close_zero hne hclose]
            refine .found ⟨Nat.le_refl 0, Nat.succ_pos _, ?_⟩ fun _ _ => Nat.zero_le _
            simp [occurrences_singleton, hclose, hne.symm, List.extract]
      · refine hpass (splitAtClose_other hopening hclose depth rest) ?_
        simp [occurrences_singleton, hopening, hclose]

theorem first_closePlace? (tokens : List Token) (start : Nat) :
    First id (MoreCloses opening close 0 tokens start)
      (closePlace? opening close tokens start) := by
  have hfirst := (first_splitAtClose hne 0 (tokens.drop start)).map id
    (fun _ _ hle => Nat.add_le_add_left hle start) (MoreCloses.drop_iff 0 tokens start)
  rwa [Option.map_map] at hfirst

theorem splitAtClose_drop (tokens : List Token) (start : Nat) :
    splitAtClose opening close 0 (tokens.drop start) =
      (closePlace? opening close tokens start).map
        fun place => (tokens.extract start place, tokens.drop (place + 1)) := by
  rw [closePlace?]
  cases hsplit : splitAtClose opening close 0 (tokens.drop start) with
  | none => rfl
  | some parts =>
      obtain ⟨body, after⟩ := parts
      obtain ⟨last, htokens, -⟩ := (splitAtClose_eq_some_iff hne).mp hsplit
      obtain ⟨hafter, -⟩ := drop_of_drop_eq htokens
      simp [List.extract, htokens, hafter]

end

/-! ## Searching for the end of a branch -/

/-- What the search for the end of a branch gives when it finds the first one. -/
def FindsBranchEnd (depth : Nat) (tokens : List Token)
    (result : Option (BranchEnd × List Token)) : Prop :=
  ∃ found, First Prod.snd (EndsBranch depth tokens 0) found ∧
    result = found.map fun found => (found.1, tokens.drop (found.2 + 1))

namespace FindsBranchEnd

/-- The first end stays the same in front of a token that is passed over. -/
theorem cons {depth inner : Nat} {token : Token} {rest : List Token}
    {result : Option (BranchEnd × List Token)} (hrest : FindsBranchEnd inner rest result)
    (hcount : occurrences (.branch .endIf) [token] + inner =
      occurrences (.branch .ifWord) [token] + depth)
    (hpass : ∀ kind : BranchEnd, kind ≠ .endIf → token.branch? = some kind.keyword → depth ≠ 0) :
    FindsBranchEnd depth (token :: rest) result := by
  obtain ⟨found, hfirst, rfl⟩ := hrest
  refine ⟨found.map (Prod.map id (· + 1)), hfirst.map Prod.snd (fun _ _ => Nat.succ_le_succ)
    (EndsBranch.cons_iff hcount hpass rest), ?_⟩
  rw [Option.map_map]
  rfl

theorem here {kind : BranchEnd} {token : Token} (htoken : token.branch? = some kind.keyword)
    (rest : List Token) : FindsBranchEnd 0 (token :: rest) (some (kind, rest)) := by
  refine ⟨some (kind, 0), .found ?_ fun _ _ => Nat.zero_le _, rfl⟩
  cases kind with
  | endIf =>
      refine .endIf rfl htoken ⟨Nat.le_refl 0, Nat.succ_pos _, ?_⟩
      simp [occurrences_branch, htoken, BranchEnd.keyword, List.extract]
  | elseIf | elseWord => exact .separator (by decide) (Nat.le_refl 0) rfl htoken rfl

end FindsBranchEnd

/-- The search for the end of a branch finds the first one, since its counter is zero just where as
many chains end as begin. -/
theorem findsBranchEnd_branchEnd? (depth : Nat) (tokens : List Token) :
    FindsBranchEnd depth tokens (branchEnd? depth tokens) := by
  induction tokens generalizing depth with
  | nil => exact ⟨none, .missing fun found hends => absurd hends.lt_length (Nat.not_lt_zero _), rfl⟩
  | cons token rest ih =>
      cases branchRole token with
      | inert htoken =>
          rw [branchEnd?_other htoken]
          refine (ih depth).cons ?_ fun kind _ hkind => ?_
          · rcases htoken with htoken | htoken <;> simp [occurrences_branch, htoken]
          · rcases htoken with htoken | htoken <;> cases kind <;> cases htoken.symm.trans hkind
      | opening htoken =>
          rw [branchEnd?_ifWord htoken]
          refine (ih (depth + 1)).cons ?_ fun kind _ hkind => ?_
          · simp [occurrences_branch, htoken, Nat.add_comm]
          · cases kind <;> cases htoken.symm.trans hkind
      | separator kind htoken hseparator =>
          cases depth with
          | zero =>
              rw [branchEnd?_zero kind htoken]
              exact .here htoken rest
          | succ depth =>
              rw [branchEnd?_separator hseparator]
              refine (ih (depth + 1)).cons ?_ fun _ _ _ => Nat.succ_ne_zero depth
              rcases hseparator with hpart | hpart <;> simp [occurrences_branch, hpart]
      | close htoken =>
          cases depth with
          | zero =>
              rw [branchEnd?_zero .endIf htoken]
              exact .here htoken rest
          | succ depth =>
              rw [branchEnd?_endIf htoken]
              refine (ih depth).cons ?_ fun _ _ _ => Nat.succ_ne_zero depth
              simp [occurrences_branch, htoken, Nat.add_comm]

theorem exists_first_branchEnd (tokens : List Token) (start : Nat) :
    ∃ found, First Prod.snd (EndsBranch 0 tokens start) found ∧
      branchEnd? 0 (tokens.drop start) =
        found.map fun found => (found.1, tokens.drop (found.2 + 1)) := by
  obtain ⟨found, hfirst, hrest⟩ := findsBranchEnd_branchEnd? 0 (tokens.drop start)
  refine ⟨found.map (Prod.map id (start + ·)), hfirst.map Prod.snd
    (fun _ _ hle => Nat.add_le_add_left hle start) (EndsBranch.drop_iff 0 tokens start), ?_⟩
  simp [hrest, Function.comp_def, Nat.add_assoc]

/-! ## Searching on a machine -/

/-- The place of what is found is given by the tokens after it. -/
theorem FindsAt.eq_of_drop {κ : Type} {tokens : List Token} {start : Nat}
    {found found' : Option (κ × Nat)}
    (hinside : ∀ result ∈ found, start ≤ result.2 ∧ result.2 < tokens.length)
    (hfinds : FindsAt (tokens.drop start) start
      (found.map fun result => (result.1, tokens.drop (result.2 + 1))) found') :
    found' = found := by
  cases found with
  | none =>
      cases hfinds
      rfl
  | some result =>
      obtain ⟨kind, place⟩ := result
      obtain ⟨hstart, hplace⟩ : start ≤ place ∧ place < tokens.length := hinside _ rfl
      cases hfinds with
      | @found kind before rest last htokens =>
          have hlength := congrArg List.length htokens
          rw [List.length_append, List.length_cons, List.length_drop, List.length_drop] at hlength
          have hbefore : start + before.length = place := by omega
          rw [hbefore]

/-- Going from branch to branch, with a counter that starts anew each time, leads to the ENDIF that
one counter finds. -/
theorem skipToEndIf?_eq_closePlace? {tokens : List Token} (hfits : tokens.length < UInt64.size)
    {budget start : Nat} (hbudget : (tokens.drop start).length < budget) :
    skipToEndIf? tokens budget start =
      some (closePlace? (.branch .ifWord) (.branch .endIf) tokens start) := by
  rcases skipToEndIf?_eq hfits hbudget with ⟨hplain, hskip⟩ |
    ⟨before, last, rest, htokens, hplain, hskip⟩
  · rw [afterEndIf?, Option.map_eq_none_iff] at hplain
    rw [hskip, closePlace?, hplain]
    rfl
  · rw [afterEndIf?, Option.map_eq_some_iff] at hplain
    obtain ⟨⟨body, after⟩, hsplit, hafter⟩ := hplain
    obtain rfl : after = rest := hafter
    obtain ⟨last', hbody, -⟩ := (splitAtClose_eq_some_iff ifWord_ne_endIf).mp hsplit
    have hlength := congrArg List.length (htokens.symm.trans hbody)
    rw [List.length_append, List.length_append, List.length_cons, List.length_cons] at hlength
    have hbefore : before.length = body.length := by omega
    rw [hskip, closePlace?, hsplit, hbefore]
    rfl

/-- The searches find the first end. For a chain of branches it is the first place up to which more
chains end than begin, whatever ELSEIF and ELSE stand before it. For a branch it is that place, or
an ELSEIF or ELSE before which as many chains end as begin, if that is earlier. For a loop it is the
first place up to which more loops of its family end than begin. A machine finds these places too:
none of its counters leaves its word, and from branch to branch it comes to an end. -/
theorem searches_find_first_end (tokens : List Token) (start : Nat) :
    (∃ found, First id (MoreCloses (.branch .ifWord) (.branch .endIf) 0 tokens start) found ∧
      afterEndIf? (tokens.drop start) = found.map (fun place => tokens.drop (place + 1)) ∧
      (tokens.length < UInt64.size → ∀ budget > (tokens.drop start).length,
        skipToEndIf? tokens budget start = some found)) ∧
    (∃ found, First Prod.snd (EndsBranch 0 tokens start) found ∧
      branchEnd? 0 (tokens.drop start) =
        found.map (fun found => (found.1, tokens.drop (found.2 + 1))) ∧
      (tokens.length < UInt64.size → skipBranch? tokens start = some found)) ∧
    ∀ family, ∃ found,
      First id (MoreCloses (.loop family) (.endLoop family) 0 tokens start) found ∧
      loopBody? family (tokens.drop start) =
        found.map (fun place => (tokens.extract start place, tokens.drop (place + 1))) ∧
      (tokens.length < UInt64.size → loopEnd? (.loop family) tokens start = some found) := by
  have hdrop : (tokens.drop start).length ≤ tokens.length := by
    rw [List.length_drop]
    exact Nat.sub_le _ _
  refine ⟨⟨_, first_closePlace? ifWord_ne_endIf tokens start, ?_, ?_⟩, ?_, fun family =>
    ⟨_, first_closePlace? (loop_ne_endLoop family) tokens start,
      splitAtClose_drop (loop_ne_endLoop family) tokens start, fun hfits => ?_⟩⟩
  · rw [afterEndIf?, splitAtClose_drop ifWord_ne_endIf, Option.map_map]
    rfl
  · exact fun hfits budget hbudget => skipToEndIf?_eq_closePlace? hfits hbudget
  · obtain ⟨found, hfirst, hplain⟩ := exists_first_branchEnd tokens start
    refine ⟨found, hfirst, hplain, fun hfits => ?_⟩
    have hroom : 0 + (tokens.drop start).length < UInt64.size := by omega
    obtain ⟨found', hfound', hfinds⟩ := branchEndAt?_eq start hroom
    rw [hplain] at hfinds
    rw [skipBranch?, hfound', hfinds.eq_of_drop fun result hresult => ?_]
    obtain rfl : found = some result := hresult
    cases hfirst with
    | found hends => exact ⟨hends.reached, hends.lt_length⟩
  · exact closeAt?_eq (loop_ne_endLoop family) start (by omega)

/-- The first branch of a chain holds a loop with another chain in it, which has an ELSE and an
ENDIF of its own. The outer chain goes on with an ELSEIF. -/
theorem ends_around_nested_chain :
    let word (text : String) : Token := ⟨.word, text, ⟨0, 0⟩⟩
    let tokens := [word "@if", word "a", word "@then", ⟨.call, "@foreachlist(", ⟨0, 0⟩⟩, word "v",
      ⟨.comma, ",", ⟨0, 0⟩⟩, word "l", ⟨.close, ")", ⟨0, 0⟩⟩, word "@if", word "b", word "@then",
      word "@else", word "@endif", word "@endforeachlist", word "@elseif", word "c", word "@then",
      word "@endif"]
    tokens.length < UInt64.size ∧ (tokens.drop 3).length < 16 ∧
      First id (MoreCloses (.branch .ifWord) (.branch .endIf) 0 tokens 3) (some 17) ∧
      skipToEndIf? tokens 16 3 = some (some 17) ∧
      First Prod.snd (EndsBranch 0 tokens 3) (some (.elseIf, 14)) ∧
      skipBranch? tokens 3 = some (some (.elseIf, 14)) ∧
      First id (MoreCloses (.loop .items) (.endLoop .items) 0 tokens 8) (some 13) ∧
      loopEnd? (.loop .items) tokens 8 = some (some 13) := by
  intro word tokens
  have hfits : tokens.length < UInt64.size := by decide
  have hbudget : (tokens.drop 3).length < 16 := by decide
  obtain ⟨⟨chainEnd, hchain, -, hskip⟩, ⟨branchEnd, hbranch, -, hstop⟩, -⟩ :=
    searches_find_first_end tokens 3
  obtain ⟨-, -, hloops⟩ := searches_find_first_end tokens 8
  obtain ⟨loopEnd, hloop, -, hend⟩ := hloops .items
  specialize hskip hfits 16 hbudget
  specialize hstop hfits
  specialize hend hfits
  have hchainEnd : skipToEndIf? tokens 16 3 = some (some 17) := by decide +kernel
  have hbranchEnd : skipBranch? tokens 3 = some (some (.elseIf, 14)) := by decide +kernel
  have hloopEnd : loopEnd? (.loop .items) tokens 8 = some (some 13) := by decide +kernel
  obtain rfl : chainEnd = some 17 := Option.some.inj (hskip.symm.trans hchainEnd)
  obtain rfl : branchEnd = some (.elseIf, 14) := Option.some.inj (hstop.symm.trans hbranchEnd)
  obtain rfl : loopEnd = some 13 := Option.some.inj (hend.symm.trans hloopEnd)
  exact ⟨hfits, hbudget, hchain, hskip, hbranch, hstop, hloop, hend⟩

end AtScript.Nesting
