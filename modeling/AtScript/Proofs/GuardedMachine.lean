import AtScript.Engine.Run
import AtScript.Proofs.Guarded
import AtScript.Proofs.JudgementCommand

/-! # A machine that can break

A machine runs a script from the list of its tokens and a cursor, the place of the next token in the
list. It breaks where the cursor is outside of the list, where the body of a loop is not between two
places of the list, where a counter of nested blocks or of nested scripts leaves its word, and where
`Guarded` commands do. Scripts of 2³² bytes and more are not entered, since places in them do not
fit their words. Room for texts and lists is not limited.
-/

namespace AtScript

/-! ## Ends of blocks by their places -/

namespace Nesting

/-- As `branchEnd?`, with the place of what ends the branch. `place` is that of the first token. -/
def branchEndAt? : Nat → Nat → List Token → Option (Option (BranchEnd × Nat))
  | _, _, [] => some none
  | depth, place, token :: rest =>
    match token.branch? with
    | some .ifWord => do branchEndAt? (← Machine.size? (depth + 1)) (place + 1) rest
    | some .endIf =>
      if depth = 0 then some (some (.endIf, place))
      else do branchEndAt? (← Machine.minus? depth 1) (place + 1) rest
    | some .elseIf =>
      if depth = 0 then some (some (.elseIf, place)) else branchEndAt? depth (place + 1) rest
    | some .elseWord =>
      if depth = 0 then some (some (.elseWord, place)) else branchEndAt? depth (place + 1) rest
    | _ => branchEndAt? depth (place + 1) rest

/-- The place of what ends the branch that starts at a place. -/
def skipBranch? (tokens : List Token) (place : Nat) : Option (Option (BranchEnd × Nat)) :=
  branchEndAt? 0 place (tokens.drop place)

/-- The place of the ENDIF of a chain, one of whose branches starts at a place. The chain has at
most `budget` branches from there on. -/
def skipToEndIf? (tokens : List Token) : Nat → Nat → Option (Option Nat)
  | 0, _ => none
  | budget + 1, place => do
    match ← skipBranch? tokens place with
    | some (.endIf, last) => return some last
    | some (_, next) => skipToEndIf? tokens budget (← Machine.size? (next + 1))
    | none => return none

/-- The place of the keyword `close` that `splitAtClose` splits at. `place` is that of the first
token. -/
def closeAt? (opening close : Keyword) : Nat → Nat → List Token → Option (Option Nat)
  | _, _, [] => some none
  | depth, place, token :: rest =>
    let found := Keyword.ofToken? token
    if found = some opening then do
      closeAt? opening close (← Machine.size? (depth + 1)) (place + 1) rest
    else if found = some close then
      if depth = 0 then some (some place)
      else do closeAt? opening close (← Machine.minus? depth 1) (place + 1) rest
    else closeAt? opening close depth (place + 1) rest

/-- The place of the end of a loop whose body starts at a place. -/
def loopEnd? (keyword : Keyword) (tokens : List Token) (place : Nat) : Option (Option Nat) :=
  match keyword.loopEnd? with
  | some close => closeAt? keyword close 0 place (tokens.drop place)
  | none => some none

/-- What a search gives as the tokens after the end that it finds, and what it gives as the place of
that end, where `place` is that of the first token. -/
inductive FindsAt {κ : Type} (tokens : List Token) (place : Nat) :
    Option (κ × List Token) → Option (κ × Nat) → Prop
  | missing : FindsAt tokens place none none
  | found {kind : κ} {before rest : List Token} {last : Token}
      (htokens : tokens = before ++ last :: rest) :
      FindsAt tokens place (some (kind, rest)) (some (kind, place + before.length))

theorem FindsAt.cons {κ : Type} {tokens : List Token} {place : Nat}
    {found : Option (κ × List Token)} {found' : Option (κ × Nat)}
    (hfinds : FindsAt tokens (place + 1) found found') (token : Token) :
    FindsAt (token :: tokens) place found found' := by
  cases hfinds with
  | missing => exact .missing
  | @found kind before rest last htokens =>
      rw [Nat.add_assoc, Nat.add_comm 1, ← List.length_cons (a := token)]
      exact .found (by rw [htokens, List.cons_append])

/-- The counter of nested chains does not leave its word. -/
theorem branchEndAt?_eq {depth : Nat} (place : Nat) {tokens : List Token}
    (hfits : depth + tokens.length < UInt64.size) :
    ∃ found, branchEndAt? depth place tokens = some found ∧
      FindsAt tokens place (branchEnd? depth tokens) found := by
  induction tokens generalizing depth place with
  | nil => exact ⟨none, rfl, .missing⟩
  | cons token rest ih =>
      rw [List.length_cons] at hfits
      have hnext {inner : Nat} (hinner : inner ≤ depth + 1)
          (hplain : branchEnd? depth (token :: rest) = branchEnd? inner rest)
          (hplace : branchEndAt? depth place (token :: rest) =
            branchEndAt? inner (place + 1) rest) :
          ∃ found, branchEndAt? depth place (token :: rest) = some found ∧
            FindsAt (token :: rest) place (branchEnd? depth (token :: rest)) found := by
        obtain ⟨found, hfound, hfinds⟩ := @ih inner (place + 1) (by omega)
        refine ⟨found, hplace.trans hfound, ?_⟩
        rw [hplain]
        exact hfinds.cons token
      have hzero (kind : BranchEnd) (hkind : token.branch? = some kind.keyword)
          (hdepth : depth = 0) (hplace : branchEndAt? depth place (token :: rest) =
            some (some (kind, place))) :
          ∃ found, branchEndAt? depth place (token :: rest) = some found ∧
            FindsAt (token :: rest) place (branchEnd? depth (token :: rest)) found := by
        refine ⟨_, hplace, ?_⟩
        rw [hdepth, branchEnd?_zero kind hkind]
        exact @FindsAt.found _ _ place kind [] rest token rfl
      cases branchRole token with
      | inert htoken =>
          refine hnext (Nat.le_succ depth) (branchEnd?_other htoken depth rest) ?_
          rcases htoken with htoken | htoken <;> simp only [branchEndAt?, htoken]
      | opening htoken =>
          refine hnext (Nat.le_refl _) (branchEnd?_ifWord htoken depth rest) ?_
          simp only [branchEndAt?, htoken, Machine.size?_of_lt
            (show depth + 1 < UInt64.size by omega)]
          rfl
      | separator kind htoken hseparator =>
          cases depth with
          | zero =>
              apply hzero kind htoken rfl
              cases kind <;> simp only [BranchEnd.keyword] at htoken <;> simp [branchEndAt?, htoken]
          | succ depth =>
              refine hnext (Nat.le_succ _) (branchEnd?_separator hseparator depth rest) ?_
              rcases hseparator with hpart | hpart <;> simp [branchEndAt?, hpart]
      | close htoken =>
          cases depth with
          | zero => exact hzero .endIf htoken rfl (by simp [branchEndAt?, htoken])
          | succ depth =>
              exact hnext (by omega) (branchEnd?_endIf htoken depth rest)
                (by simp [branchEndAt?, htoken, Machine.minus?])

/-- The chain that a branch is in ends where the branch does, or where its later branches do. -/
theorem split_of_branchEnd? (depth : Nat) (tokens : List Token) :
    (splitAtClose (.branch .ifWord) (.branch .endIf) depth tokens).map Prod.snd =
      match branchEnd? depth tokens with
      | some (.endIf, rest) => some rest
      | some (_, rest) => afterEndIf? rest
      | none => none := by
  induction tokens generalizing depth with
  | nil => rfl
  | cons token rest ih =>
      have hother (htoken : ∀ part, token.branch? = some part → part ≠ .ifWord ∧ part ≠ .endIf) :
          (splitAtClose (.branch .ifWord) (.branch .endIf) depth (token :: rest)).map Prod.snd =
            (splitAtClose (.branch .ifWord) (.branch .endIf) depth rest).map Prod.snd := by
        rw [splitAtClose_other, Option.map_map]
        · rfl
        · rw [Ne, ← Token.branch?_eq_some_iff]
          exact fun hbranch => (htoken _ hbranch).1 rfl
        · rw [Ne, ← Token.branch?_eq_some_iff]
          exact fun hbranch => (htoken _ hbranch).2 rfl
      cases branchRole token with
      | inert htoken =>
          rw [hother (by rcases htoken with htoken | htoken <;> simp [htoken]),
            branchEnd?_other htoken]
          exact ih depth
      | opening htoken =>
          rw [splitAtClose_opening ((Token.branch?_eq_some_iff token _).mp htoken),
            Option.map_map, branchEnd?_ifWord htoken]
          exact ih (depth + 1)
      | separator kind htoken hseparator =>
          rw [hother (by rcases hseparator with hpart | hpart <;> simp [hpart])]
          cases depth with
          | zero =>
              rw [branchEnd?_zero kind htoken]
              cases kind with
              | elseIf | elseWord => rfl
              | endIf => simp [htoken, BranchEnd.keyword] at hseparator
          | succ depth =>
              rw [branchEnd?_separator hseparator]
              exact ih (depth + 1)
      | close htoken =>
          have hclose := (Token.branch?_eq_some_iff token _).mp htoken
          cases depth with
          | zero =>
              rw [splitAtClose_close_zero ifWord_ne_endIf hclose, branchEnd?_zero .endIf htoken]
              rfl
          | succ depth =>
              rw [splitAtClose_close_succ ifWord_ne_endIf hclose, Option.map_map,
                branchEnd?_endIf htoken]
              exact ih depth

/-- The tokens after what is found behind a place. -/
theorem drop_of_drop_eq {tokens before rest : List Token} {last : Token} {place : Nat}
    (htokens : tokens.drop place = before ++ last :: rest) :
    tokens.drop (place + before.length + 1) = rest ∧ place + before.length < tokens.length := by
  constructor
  · rw [Nat.add_assoc, ← List.drop_drop, htokens]
    simp
  · have hlength := congrArg List.length htokens
    rw [List.length_drop, List.length_append, List.length_cons] at hlength
    omega

theorem skipToEndIf?_eq {tokens : List Token} (hfits : tokens.length < UInt64.size)
    {budget place : Nat} (hbudget : (tokens.drop place).length < budget) :
    afterEndIf? (tokens.drop place) = none ∧ skipToEndIf? tokens budget place = some none ∨
      ∃ before last rest, tokens.drop place = before ++ last :: rest ∧
        afterEndIf? (tokens.drop place) = some rest ∧
        skipToEndIf? tokens budget place = some (some (place + before.length)) := by
  induction budget generalizing place with
  | zero => cases hbudget
  | succ budget ih =>
      have hdrop : (tokens.drop place).length ≤ tokens.length := by
        rw [List.length_drop]
        omega
      obtain ⟨found, hfound, hfinds⟩ := @branchEndAt?_eq 0 place (tokens.drop place) (by omega)
      have hplain : afterEndIf? (tokens.drop place) = _ := split_of_branchEnd? 0 (tokens.drop place)
      cases hend : branchEnd? 0 (tokens.drop place) with
      | none =>
          rw [hend] at hfinds hplain
          cases hfinds
          simp only [skipToEndIf?, skipBranch?, hfound]
          exact .inl ⟨hplain, rfl⟩
      | some parts =>
          rw [hend] at hfinds hplain
          cases hfinds with
          | @found kind before rest last htokens =>
              obtain ⟨hrest, hlast⟩ := drop_of_drop_eq htokens
              have hnext : Machine.size? (place + before.length + 1) =
                  some (place + before.length + 1) := Machine.size?_of_lt (by omega)
              -- A later branch is one of the same chain.
              have hlater (hafter : afterEndIf? (tokens.drop place) = afterEndIf? rest)
                  (hskip : skipToEndIf? tokens (budget + 1) place =
                    skipToEndIf? tokens budget (place + before.length + 1)) :
                  afterEndIf? (tokens.drop place) = none ∧
                      skipToEndIf? tokens (budget + 1) place = some none ∨
                    ∃ before last rest, tokens.drop place = before ++ last :: rest ∧
                      afterEndIf? (tokens.drop place) = some rest ∧
                      skipToEndIf? tokens (budget + 1) place =
                        some (some (place + before.length)) := by
                have hshorter : (tokens.drop (place + before.length + 1)).length < budget := by
                  rw [List.length_drop] at hbudget ⊢
                  omega
                rcases ih hshorter with ⟨hnone, hmissing⟩ |
                  ⟨inner, final, more, hinner, hsome, hfinal⟩
                · rw [hrest] at hnone
                  exact .inl ⟨hafter.trans hnone, hskip.trans hmissing⟩
                · rw [hrest] at hinner hsome
                  refine .inr ⟨before ++ last :: inner, final, more, ?_, hafter.trans hsome, ?_⟩
                  · rw [htokens, hinner, List.append_assoc, List.cons_append]
                  · rw [hskip, hfinal, List.length_append, List.length_cons]
                    congr 2
                    omega
              cases kind with
              | endIf =>
                  refine .inr ⟨before, last, rest, htokens, hplain, ?_⟩
                  simp only [skipToEndIf?, skipBranch?, hfound]
                  rfl
              | elseIf | elseWord =>
                  apply hlater hplain
                  simp only [skipToEndIf?, skipBranch?, hfound, Option.bind_eq_bind,
                    Option.bind_some, hnext]

/-- The counter of nested loops does not leave its word. -/
theorem closeAt?_eq {opening close : Keyword} (hne : opening ≠ close) {depth : Nat} (place : Nat)
    {tokens : List Token} (hfits : depth + tokens.length < UInt64.size) :
    closeAt? opening close depth place tokens =
      some ((splitAtClose opening close depth tokens).map fun parts => place + parts.1.length) := by
  induction tokens generalizing depth place with
  | nil => rfl
  | cons token rest ih =>
      rw [List.length_cons] at hfits
      have hnext {inner : Nat} (hinner : inner ≤ depth + 1)
          (hplain : splitAtClose opening close depth (token :: rest) =
            (splitAtClose opening close inner rest).map fun parts => (token :: parts.1, parts.2))
          (hplace : closeAt? opening close depth place (token :: rest) =
            closeAt? opening close inner (place + 1) rest) :
          closeAt? opening close depth place (token :: rest) =
            some ((splitAtClose opening close depth (token :: rest)).map
              fun parts => place + parts.1.length) := by
        rw [hplace, hplain, @ih inner (place + 1) (by omega), Option.map_map]
        congr 2
        funext parts
        rw [Function.comp_apply, List.length_cons]
        omega
      by_cases hopening : Keyword.ofToken? token = some opening
      · refine hnext (Nat.le_refl _) (splitAtClose_opening hopening depth rest) ?_
        have hword := Machine.size?_of_lt (show depth + 1 < UInt64.size by omega)
        simp only [closeAt?, hopening, if_true, hword]
        rfl
      · by_cases hclose : Keyword.ofToken? token = some close
        · cases depth with
          | zero =>
              rw [splitAtClose_close_zero hne hclose]
              simp only [closeAt?, if_neg hopening, if_pos hclose, if_true]
              rfl
          | succ depth =>
              refine hnext (by omega) (splitAtClose_close_succ hne hclose depth rest) ?_
              simp only [closeAt?, if_neg hopening, if_pos hclose,
                if_neg (Nat.succ_ne_zero depth), Machine.minus?_of_le (Nat.le_add_left 1 depth)]
              rfl
        · refine hnext (Nat.le_succ depth) (splitAtClose_other hopening hclose depth rest) ?_
          simp only [closeAt?, hopening, hclose, if_false]

end Nesting

/-- A way to run the command at a place of some tokens; the result is the place after it. -/
abbrev Cursor (S : Type) : Type := List Token → Nat → Guarded S Nat

namespace Guarded

variable {S : Type}

/-! ## Scripts -/

/-- The place after a place. -/
def advance (place : Nat) : Guarded S Nat :=
  expect (Machine.size? (place + 1))

/-- Runs commands until the cursor is at the end, at most `budget` of them. -/
def sequence (run : Cursor S) (tokens : List Token) : Nat → Nat → Guarded S Unit
  | budget, place =>
    if place < tokens.length then
      match budget with
      | 0 => throw .outOfFuel
      | budget + 1 => do sequence run tokens budget (← run tokens place)
    else return ()

def sequenceAll (run : Cursor S) (tokens : List Token) : Guarded S Unit :=
  sequence run tokens tokens.length 0

/-- Leaves the script that is running. -/
def leave (result : Except Halt Unit) : Guarded S Unit := fun frame =>
  match frame.leave?, result with
  | some outer, .ok () => .ok () outer
  | some outer, .error halt => .error halt outer
  | none, _ => .error .broken frame

/-- Runs a script inside the running one. -/
def nested (run : Cursor S) (script : String) : Guarded S Unit := fun frame =>
  match frame.exceededLimit? with
  | some limit => .error (.failed ⟨.tooDeep limit, none, [script]⟩) frame
  | none =>
    if script.utf8ByteSize < UInt32.size then
      match Machine.size? (frame.engine.depth + 1), Token.scan? script with
      | some _, some tokens =>
        match sequenceAll run tokens frame.enter with
        | .ok () after => leave (.ok ()) after
        | .error halt after => leave (.error (halt.inScript script)) after
      | _, _ => .error .broken frame
    else .error (.oversized script) frame

/-! ## Arguments and conditions -/

/-- As `Exec.argumentsFrom`, from a place on. -/
def argumentsFrom (run : Cursor S) (opener : Token) (tokens : List Token) :
    Nat → String → Bool → Nat → Guarded S (List String × Nat)
  | 0, _, _, _ => throw .outOfFuel
  | budget + 1, part, begun, place =>
    match tokens[place]? with
    | none => fail (.imbalance .unclosedParenthesis) opener.span
    | some token =>
      match token.role with
      | .comma => do
        let (others, after) ← argumentsFrom run opener tokens budget "" true (← advance place)
        return (part :: others, after)
      | .close => do return (if begun then [part] else [], ← advance place)
      | .literal value => do
        argumentsFrom run opener tokens budget (part ++ value) true (← advance place)
      | .keyword keyword => do
        if ← isControl keyword then fail (.unexpectedToken token.text) token.span
        else
          let (after, text) ← capture (run tokens place)
          argumentsFrom run opener tokens budget (part ++ text) true after
      | .stored => do
        let (after, text) ← capture (run tokens place)
        argumentsFrom run opener tokens budget (part ++ text) true after

/-- Evaluates the arguments of the command at a place. -/
def arguments (budget : Nat) (run : Cursor S) (tokens : List Token) (place : Nat) :
    Guarded S (List String × Nat) := do
  let command ← expect tokens[place]?
  let after ← advance place
  if command.kind = .call then argumentsFrom run command tokens budget "" false after
  else return ([], after)

/-- The role of a token inside a condition. -/
def conditionRole (token : Token) : Guarded S Exec.ConditionRole :=
  match token.role with
  | .literal _ | .stored => return .part
  | .comma | .close => return .refused
  | .keyword (.branch .thenWord) => return .ending
  | .keyword (.connector .not) => return .negation
  | .keyword (.connector .and) => return .connector true
  | .keyword (.connector .or) => return .connector false
  | .keyword keyword => do return if ← isControl keyword then .refused else .part

/-- Evaluates the part of a condition at a place. -/
def conditionPart (run : Cursor S) (token : Token) (tokens : List Token) (place : Nat) :
    Guarded S (Nat × String) := do
  if token.isLiteral then return (← advance place, token.literalValue)
  else capture (run tokens place)

/-- As `Exec.conditionFrom`, from a place on. -/
def conditionFrom (run : Cursor S) (ifSpan : Span) (tokens : List Token) :
    Nat → Exec.PartialCondition → Nat → Guarded S (Bool × Nat)
  | 0, _, _ => throw .outOfFuel
  | budget + 1, condition, place =>
    match tokens[place]? with
    | none => fail (.imbalance .missingThen) ifSpan
    | some token => do
      match ← conditionRole token with
      | .refused => fail (.unexpectedToken token.text) token.span
      | .ending =>
        if condition.isOpen then fail (.unexpectedToken token.text) token.span
        else return (condition.value.getD false, ← advance place)
      | .negation =>
        conditionFrom run ifSpan tokens budget { condition with negated := !condition.negated }
          (← advance place)
      | .connector conjunction =>
        if condition.value.isNone || condition.isOpen then
          fail (.unexpectedToken token.text) token.span
        else
          conditionFrom run ifSpan tokens budget { condition with pending := some conjunction }
            (← advance place)
      | .part =>
        if condition.wantsPart then
          let (after, text) ← conditionPart run token tokens place
          let part ← lift (Exec.ofValue token.span (Value.toBool text))
          conditionFrom run ifSpan tokens budget (condition.join part) after
        else
          fail (.unexpectedToken token.text) token.span

/-- As `Exec.chooseBranchWithin`, from a place on. -/
def chooseBranchWithin (budget : Nat) (run : Cursor S) (ifSpan : Span) (tokens : List Token) :
    Nat → Nat → Guarded S Nat
  | 0, _ => throw .outOfFuel
  | count + 1, place => do
    let (holds, body) ← conditionFrom run ifSpan tokens budget {} place
    if holds then return body
    else
      match ← expect (Nesting.skipBranch? tokens body) with
      | some (.elseIf, next) =>
        chooseBranchWithin budget run ifSpan tokens count (← advance next)
      | some (_, last) => advance last
      | none => fail (.imbalance .missingEndIf) ifSpan

/-! ## Commands -/

/-- Runs the body of a loop for each of some values. -/
def forEach (run : Cursor S) (name : String) (body : List Token) : List String → Guarded S Unit
  | [] => return ()
  | value :: rest => do
    sequenceAll run (Exec.substitute name value body)
    forEach run name body rest

variable [Store S]

/-- The variable of a loop and the values that its arguments ask for. -/
def loopValues (keyword : Keyword) (span : Span) (arguments : List String) :
    Guarded S (String × List String) := do
  let name ← argument arguments 0
  match keyword with
  | .loop .range => do
    let first ← lift (Exec.ofValue span (Value.toInt (← argument arguments 1)))
    let last ← lift (Exec.ofValue span (Value.toInt (← argument arguments 2)))
    return (name, Exec.integersFrom first.toInt (last.toInt + 1 - first.toInt).toNat)
  | .loop .keys => do
    let start ← argument arguments 1
    return (name, Exec.keyParts (← store) start (arguments[2]?.getD ""))
  | .loop .items => do
    let list ← argument arguments 1
    let texts ← lift (Exec.ofValue span (PackedList.decode (Store.get (← store) list)))
    return (name, texts)
  | _ => throw .broken

/-- Runs the loop at a place. -/
def loop (budget : Nat) (run : Cursor S) (family : LoopFamily) (tokens : List Token)
    (place : Nat) : Guarded S Nat := do
  let header ← expect tokens[place]?
  let (values, start) ← arguments budget run tokens place
  checkArity header (.loop family) values.length
  match ← expect (Nesting.loopEnd? (.loop family) tokens start) with
  | none => fail (.imbalance (.missingEnd family)) header.span
  | some last =>
    let after ← advance last
    let body ← expect (Machine.slice? tokens start last)
    let (name, values) ← loopValues (.loop family) header.span values
    forEach run name body values
    return after

/-- Runs a keyword on its arguments. -/
def builtin (run : Cursor S) (keyword : Keyword) (span : Span) (values : List String) :
    Guarded S Unit :=
  match keyword with
  | .exec => do nested run (← argument values 0)
  | .script => do
    let key ← argument values 0
    nested run (Store.get (← store) key)
  | .getValue => do
    let key ← argument values 0
    let value := Store.get (← store) key
    if Value.isScript value then nested run value else write value
  | keyword => primitive span keyword values

/-- Runs the stored script that the command at a place names. -/
def storedCall (budget : Nat) (run : Cursor S) (tokens : List Token) (place : Nat) :
    Guarded S Nat := do
  let command ← expect tokens[place]?
  let current ← store
  if command.kind = .call then
    match Store.entriesFrom current command.text with
    | [] => fail (.unknownCommand command.text) command.span
    | (key, script) :: _ =>
      let names := Exec.parameters ((Store.afterStart? command.text key).getD [])
      let (values, after) ← arguments budget run tokens place
      lift (Exec.checkArity command (.exactly names.length) values.length)
      nested run (Exec.bindParameters script (names.zip values))
      return after
  else
    let script := Store.get current command.text
    if script.isEmpty then fail (.unknownCommand command.text) command.span
    else
      let after ← advance place
      nested run script
      return after

/-- Runs the keyword at a place, which belongs to a branch or a loop. -/
def control (budget : Nat) (run : Cursor S) (keyword : Keyword) (tokens : List Token)
    (place : Nat) : Guarded S Nat := do
  let token ← expect tokens[place]?
  match keyword with
  | .branch .ifWord =>
    chooseBranchWithin budget run token.span tokens budget (← advance place)
  | .branch .endIf => advance place
  | .branch .elseIf | .branch .elseWord =>
    match ← expect (Nesting.skipToEndIf? tokens (tokens.length + 1) (← advance place)) with
    | some last => advance last
    | none => fail (.imbalance .missingEndIf) token.span
  | .loop family => loop budget run family tokens place
  | keyword => fail (.imbalance (.unexpected keyword)) token.span

/-- Runs the command at a place, given a way to run the commands it contains. -/
def commandWith (budget : Nat) (run : Cursor S) : Cursor S := fun tokens place => do
  let token ← expect tokens[place]?
  match token.role with
  | .comma => fail (.unexpectedToken token.text) token.span
  | .close => fail (.imbalance .unmatchedParenthesis) token.span
  | .literal value => do
    write value
    advance place
  | .stored => storedCall budget run tokens place
  | .keyword keyword => do
    if ← isControl keyword then control budget run keyword tokens place
    else
      let (values, after) ← arguments budget run tokens place
      checkArity token keyword values.length
      builtin run keyword token.span values
      return after

/-- Runs the command at a place. -/
def command : Nat → Cursor S
  | 0 => fun _ _ => throw .outOfFuel
  | fuel + 1 => commandWith fuel (command fuel)

end Guarded

/-- Runs a script on a machine that can break, with fuel as in `runWithin`. There is no outcome
where the machine breaks or comes to a script that is too long. -/
def Engine.guardedRun {S : Type} [Store S] (fuel : Nat) (engine : Engine S) (script : String) :
    Except Halt (Outcome S) :=
  if Value.isNull script then .ok ⟨engine, none, .ok ()⟩
  else
    match Guarded.nested (Guarded.command fuel) script ⟨engine, ""⟩ with
    | .ok () frame => .ok ⟨frame.engine, some frame.out, .ok ()⟩
    | .error (.failed error) frame => .ok ⟨frame.engine, some frame.out, .error (.failed error)⟩
    | .error .outOfFuel frame => .ok ⟨frame.engine, some frame.out, .error .outOfFuel⟩
    | .error .tooLong frame => .ok ⟨frame.engine, some frame.out, .error .tooLong⟩
    | .error halt _ => .error halt

end AtScript
