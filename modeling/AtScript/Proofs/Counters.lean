import AtScript.Check.Script
import AtScript.Layout
import AtScript.Proofs.ByteSlices

/-! # Counters that can overflow

A check and a layout count parentheses, branches and loops in words of a machine. A token moves a
counter by one at most, so no counter leaves its word while a script of less than 2³² bytes is
checked or laid out.
-/

namespace AtScript

/-! ## Checking -/

namespace Check

namespace Tally

/-- As `countParenthesis`, in a signed word. -/
def countParenthesis? (tally : Tally) (kind : TokenKind) : Option Tally :=
  match kind with
  | .call => do return { tally with parentheses := ← Machine.signed? (tally.parentheses + 1) }
  | .close => do return { tally with parentheses := ← Machine.signed? (tally.parentheses - 1) }
  | _ => some tally

/-- As `countBranch`, in unsigned words. -/
def countBranch? (tally : Tally) (part : Branch) : Option Tally :=
  let tally := { tally with last := part }
  match part with
  | .ifWord => do return { tally with ifs := ← Machine.size? (tally.ifs + 1) }
  | .thenWord => do return { tally with thens := ← Machine.size? (tally.thens + 1) }
  | .elseIf => do return { tally with elseIfs := ← Machine.size? (tally.elseIfs + 1) }
  | .endIf => do return { tally with endIfs := ← Machine.size? (tally.endIfs + 1) }
  | .elseWord => some tally

/-- As `countLoop`, in signed words. -/
def countLoop? (tally : Tally) (family : LoopFamily) (change : Int) : Option Tally :=
  match family with
  | .range => do return { tally with rangeLoops := ← Machine.signed? (tally.rangeLoops + change) }
  | .keys => do return { tally with keyLoops := ← Machine.signed? (tally.keyLoops + change) }
  | .items => do return { tally with itemLoops := ← Machine.signed? (tally.itemLoops + change) }

def countKeyword? (tally : Tally) : Keyword → Option Tally
  | .branch part => tally.countBranch? part
  | .loop family => tally.countLoop? family 1
  | .endLoop family => tally.countLoop? family (-1)
  | _ => some tally

/-- The first balance that the counts break, where the sum of two counts has to fit a word. -/
def brokenBalance? (tally : Tally) : Option (Option FindingKind) :=
  if tally.parentheses ≠ 0 then some (some .parentheses)
  else if tally.ifs ≠ tally.endIfs then some (some .ifCount)
  else do
    let conditions ← Machine.size? (tally.ifs + tally.elseIfs)
    if conditions ≠ tally.thens then return some .thenCount
    else if tally.loops .range ≠ 0 then return some (.loopCount .range)
    else if tally.loops .keys ≠ 0 then return some (.loopCount .keys)
    else if tally.loops .items ≠ 0 then return some (.loopCount .items)
    else return none

/-- No counter is further from zero than `count`. -/
structure Within (tally : Tally) (count : Nat) : Prop where
  parentheses : tally.parentheses.natAbs ≤ count
  ifs : tally.ifs ≤ count
  elseIfs : tally.elseIfs ≤ count
  thens : tally.thens ≤ count
  endIfs : tally.endIfs ≤ count
  loops : ∀ family, (tally.loops family).natAbs ≤ count

variable {tally : Tally} {count : Nat}

theorem Within.mono (hwithin : tally.Within count) {more : Nat} (hle : count ≤ more) :
    tally.Within more where
  parentheses := Nat.le_trans hwithin.parentheses hle
  ifs := Nat.le_trans hwithin.ifs hle
  elseIfs := Nat.le_trans hwithin.elseIfs hle
  thens := Nat.le_trans hwithin.thens hle
  endIfs := Nat.le_trans hwithin.endIfs hle
  loops family := Nat.le_trans (hwithin.loops family) hle

theorem countParenthesis?_eq (hwithin : tally.Within count) (hfits : count + 1 < Machine.signedSize)
    (kind : TokenKind) :
    tally.countParenthesis? kind = some (tally.countParenthesis kind) ∧
      (tally.countParenthesis kind).Within (count + 1) := by
  have hmore := hwithin.mono (Nat.le_succ count)
  have hparentheses := hwithin.parentheses
  cases kind with
  | call =>
      have hnext : (tally.parentheses + 1).natAbs ≤ count + 1 := by omega
      simp only [countParenthesis?, countParenthesis, Machine.signed?_of_natAbs_le hnext hfits]
      exact ⟨rfl, { hmore with parentheses := hnext }⟩
  | close =>
      have hnext : (tally.parentheses - 1).natAbs ≤ count + 1 := by omega
      simp only [countParenthesis?, countParenthesis, Machine.signed?_of_natAbs_le hnext hfits]
      exact ⟨rfl, { hmore with parentheses := hnext }⟩
  | _ => exact ⟨rfl, hmore⟩

theorem countBranch?_eq (hwithin : tally.Within count) (hfits : count + 1 < Machine.signedSize)
    (part : Branch) :
    tally.countBranch? part = some (tally.countBranch part) ∧
      (tally.countBranch part).Within (count + 1) := by
  have hmore := hwithin.mono (Nat.le_succ count)
  have hword {number : Nat} (hnumber : number ≤ count) :
      Machine.size? (number + 1) = some (number + 1) := by
    apply Machine.size?_of_lt
    calc number + 1
      _ < Machine.signedSize := Nat.lt_of_le_of_lt (Nat.succ_le_succ hnumber) hfits
      _ < UInt64.size := by decide
  cases part with
  | ifWord =>
      simp only [countBranch?, countBranch, hword hwithin.ifs]
      exact ⟨rfl, { hmore with ifs := Nat.succ_le_succ hwithin.ifs }⟩
  | thenWord =>
      simp only [countBranch?, countBranch, hword hwithin.thens]
      exact ⟨rfl, { hmore with thens := Nat.succ_le_succ hwithin.thens }⟩
  | elseIf =>
      simp only [countBranch?, countBranch, hword hwithin.elseIfs]
      exact ⟨rfl, { hmore with elseIfs := Nat.succ_le_succ hwithin.elseIfs }⟩
  | endIf =>
      simp only [countBranch?, countBranch, hword hwithin.endIfs]
      exact ⟨rfl, { hmore with endIfs := Nat.succ_le_succ hwithin.endIfs }⟩
  | elseWord => exact ⟨rfl, { hmore with }⟩

theorem countLoop?_eq (hwithin : tally.Within count) (hfits : count + 1 < Machine.signedSize)
    (family : LoopFamily) {change : Int} (hchange : change.natAbs = 1) :
    tally.countLoop? family change = some (tally.countLoop family change) ∧
      (tally.countLoop family change).Within (count + 1) := by
  have hmore := hwithin.mono (Nat.le_succ count)
  have hnext : (tally.loops family + change).natAbs ≤ count + 1 := by
    have hloops := hwithin.loops family
    omega
  have hword := Machine.signed?_of_natAbs_le hnext hfits
  have hloops (other : LoopFamily) :
      ((tally.countLoop family change).loops other).natAbs ≤ count + 1 := by
    have hother := hmore.loops other
    cases family <;> cases other <;> first | exact hnext | exact hother
  cases family <;> simp only [loops] at hword <;>
    simp only [countLoop?, countLoop, hword] <;> exact ⟨rfl, { hmore with loops := hloops }⟩

theorem countKeyword?_eq (hwithin : tally.Within count) (hfits : count + 1 < Machine.signedSize)
    (keyword : Keyword) :
    tally.countKeyword? keyword = some (tally.countKeyword keyword) ∧
      (tally.countKeyword keyword).Within (count + 1) := by
  cases keyword with
  | branch part => exact countBranch?_eq hwithin hfits part
  | loop family => exact countLoop?_eq hwithin hfits family rfl
  | endLoop family => exact countLoop?_eq hwithin hfits family rfl
  | _ => exact ⟨rfl, hwithin.mono (Nat.le_succ count)⟩

theorem brokenBalance?_eq (hwithin : tally.Within count) (hfits : count < Machine.signedSize) :
    tally.brokenBalance? = some tally.imbalance? := by
  have hword : tally.ifs + tally.elseIfs < UInt64.size := by
    have hifs := hwithin.ifs
    have helseIfs := hwithin.elseIfs
    have hsize : UInt64.size = Machine.signedSize + Machine.signedSize := rfl
    omega
  simp only [brokenBalance?, imbalance?, Machine.size?_of_lt hword, Option.bind_eq_bind,
    Option.bind_some]
  repeat' split
  all_goals rfl

end Tally

variable {S : Type} [Store S]

/-- As `tokensFrom`, with counters in words. -/
def tokensFrom? (store : S) : Nat → Tally → List Token → Option (Except Finding Unit)
  | _, tally, [] => do
    match ← tally.brokenBalance? with
    | some kind => return .error { kind := kind }
    | none => return .ok ()
  | index, tally, token :: rest => do
    let tally ← tally.countParenthesis? token.kind
    match flaw? store index tally token with
    | some kind => return .error { kind := kind, span := some token.span }
    | none =>
      match Keyword.ofToken? token with
      | some keyword => tokensFrom? store (index + 1) (← tally.countKeyword? keyword) rest
      | none => tokensFrom? store (index + 1) tally rest

/-- As `script`, with offsets and counters in words. -/
def script? (store : S) (text : String) : Option (List Finding) :=
  if Text.isBlank text then some []
  else do
    match ← tokensFrom? store 0 {} (← Token.scan? text) with
    | .ok () => return []
    | .error finding => return [{ finding with script := some text }]

omit [Store S] in
theorem admits_countParenthesis (tally : Tally) (kind : TokenKind) (part : Branch) :
    (tally.countParenthesis kind).admits part = tally.admits part := by
  cases kind <;> rfl

theorem flaw?_countParenthesis (store : S) (index : Nat) (tally : Tally) (token : Token)
    (kind : TokenKind) :
    flaw? store index (tally.countParenthesis kind) token = flaw? store index tally token := by
  simp only [flaw?, admits_countParenthesis]

theorem tokensFrom?_eq (store : S) {tokens : List Token} (index : Nat) {tally : Tally}
    {count : Nat} (hwithin : tally.Within count)
    (hfits : count + 2 * tokens.length < Machine.signedSize) :
    tokensFrom? store index tally tokens = some (tokensFrom store index tally tokens) := by
  induction tokens generalizing index tally count with
  | nil =>
      simp only [tokensFrom?, tokensFrom, Tally.brokenBalance?_eq hwithin (by simpa using hfits)]
      cases tally.imbalance? <;> rfl
  | cons token rest ih =>
      rw [List.length_cons] at hfits
      obtain ⟨hparenthesis, hwithin⟩ :=
        Tally.countParenthesis?_eq hwithin (by omega) token.kind
      simp only [tokensFrom?, tokensFrom, hparenthesis, Option.bind_eq_bind, Option.bind_some,
        flaw?_countParenthesis]
      cases flaw? store index tally token with
      | some kind => rfl
      | none =>
          cases hkeyword : Keyword.ofToken? token with
          | some keyword =>
              obtain ⟨hcount, hwithin⟩ := Tally.countKeyword?_eq hwithin (by omega) keyword
              simp only [hcount, Tally.count, hkeyword]
              exact ih (index + 1) hwithin (by omega)
          | none =>
              simp only [Tally.count, hkeyword]
              exact ih (index + 1) hwithin (by omega)

/-- A script of less than 2³² bytes is checked to the end. -/
theorem script?_eq (store : S) {text : String} (hsize : text.utf8ByteSize < UInt32.size) :
    script? store text = some (script store text) := by
  have hstart : Tally.Within {} 0 :=
    ⟨Nat.le_refl 0, Nat.le_refl 0, Nat.le_refl 0, Nat.le_refl 0, Nat.le_refl 0, by
      intro family
      cases family <;> exact Nat.le_refl 0⟩
  have hfits : 0 + 2 * (Token.scan text).length < Machine.signedSize := by
    have hlength := Token.length_scan_le text
    have hword : UInt32.size = 2 ^ 32 := rfl
    have hsigned : Machine.signedSize = 2 ^ 63 := rfl
    omega
  simp only [script?, script, Token.scan?_eq hsize, Option.bind_eq_bind, Option.bind_some,
    tokensFrom?_eq store 0 hstart hfits, tokens]
  split
  · rfl
  · cases tokensFrom store 0 {} (Token.scan text) <;> rfl

end Check

/-! ## Laying out -/

namespace Layout

namespace Page

/-- As `outdent`, in a signed word. -/
def outdent? (page : Page) (keyword : Option Keyword) : Option Page :=
  if keyword.any endsBody then do
    return { page with indent := ← Machine.signed? (page.indent - 1) }
  else
    some page

/-- As `noteKeyword`, in a signed word. -/
def noteKeyword? (page : Page) : Option Keyword → Option Page
  | some (.branch .ifWord) | some (.branch .elseIf) => some { page with inCondition := true }
  | some (.branch .elseWord) => do
    return { page with indent := ← Machine.signed? (page.indent + 1) }
  | some (.branch .thenWord) => do
    return { page with indent := ← Machine.signed? (page.indent + 1), inCondition := false }
  | some (.loop _) => some { page with inLoopHeader := true }
  | _ => some page

/-- As `noteParenthesis`, in signed words. -/
def noteParenthesis? (page : Page) (token : Token) : Option Page :=
  if token.opensGroup then do
    return { page with parentheses := ← Machine.signed? (page.parentheses + 1) }
  else if token.kind = .close then do
    let page := { page with parentheses := ← Machine.signed? (page.parentheses - 1) }
    if page.inLoopHeader && page.parentheses == 0 then
      return { page with inLoopHeader := false, indent := ← Machine.signed? (page.indent + 1) }
    else
      return page
  else
    some page

/-- As `push`, with counters in words. -/
def push? (page : Page) (token : Token) : Option Page := do
  let keyword := Keyword.ofToken? token
  let page ← page.outdent? keyword
  let page ← noteKeyword? { page with text := page.text ++ page.separator ++ token.text } keyword
  page.noteParenthesis? token

/-- No counter is further from zero than `count`. -/
structure Within (page : Page) (count : Nat) : Prop where
  indent : page.indent.natAbs ≤ count
  parentheses : page.parentheses.natAbs ≤ count

variable {page : Page} {count : Nat}

theorem Within.mono (hwithin : page.Within count) {more : Nat} (hle : count ≤ more) :
    page.Within more :=
  ⟨Nat.le_trans hwithin.indent hle, Nat.le_trans hwithin.parentheses hle⟩

theorem outdent?_eq (hwithin : page.Within count) (hfits : count + 1 < Machine.signedSize)
    (keyword : Option Keyword) :
    page.outdent? keyword = some (page.outdent keyword) ∧
      (page.outdent keyword).Within (count + 1) := by
  have hmore := hwithin.mono (Nat.le_succ count)
  have hnext : (page.indent - 1).natAbs ≤ count + 1 := by
    have hindent := hwithin.indent
    omega
  rw [outdent?, outdent, Machine.signed?_of_natAbs_le hnext hfits]
  split
  · exact ⟨rfl, { hmore with indent := hnext }⟩
  · exact ⟨rfl, hmore⟩

theorem noteKeyword?_eq (hwithin : page.Within count) (hfits : count + 1 < Machine.signedSize)
    (keyword : Option Keyword) :
    page.noteKeyword? keyword = some (page.noteKeyword keyword) ∧
      (page.noteKeyword keyword).Within (count + 1) := by
  have hmore := hwithin.mono (Nat.le_succ count)
  have hnext : (page.indent + 1).natAbs ≤ count + 1 := by
    have hindent := hwithin.indent
    omega
  have hword := Machine.signed?_of_natAbs_le hnext hfits
  match keyword with
  | none => exact ⟨rfl, hmore⟩
  | some keyword =>
      cases keyword with
      | branch part =>
          cases part with
          | ifWord | elseIf => exact ⟨rfl, { hmore with }⟩
          | elseWord | thenWord =>
              simp only [noteKeyword?, noteKeyword, hword]
              exact ⟨rfl, { hmore with indent := hnext }⟩
          | endIf => exact ⟨rfl, hmore⟩
      | loop family => exact ⟨rfl, { hmore with }⟩
      | _ => exact ⟨rfl, hmore⟩

theorem noteParenthesis?_eq (hwithin : page.Within count) (hfits : count + 1 < Machine.signedSize)
    (token : Token) :
    page.noteParenthesis? token = some (page.noteParenthesis token) ∧
      (page.noteParenthesis token).Within (count + 1) := by
  have hmore := hwithin.mono (Nat.le_succ count)
  have hindent : (page.indent + 1).natAbs ≤ count + 1 := by
    have hindent := hwithin.indent
    omega
  have hparentheses := hwithin.parentheses
  have hopened : (page.parentheses + 1).natAbs ≤ count + 1 := by omega
  have hclosed : (page.parentheses - 1).natAbs ≤ count + 1 := by omega
  simp only [noteParenthesis?, noteParenthesis, Machine.signed?_of_natAbs_le hindent hfits,
    Machine.signed?_of_natAbs_le hopened hfits, Machine.signed?_of_natAbs_le hclosed hfits,
    Option.bind_eq_bind, Option.bind_some]
  split
  · exact ⟨rfl, { hmore with parentheses := hopened }⟩
  · split
    · split
      · exact ⟨rfl, ⟨hindent, hclosed⟩⟩
      · exact ⟨rfl, { hmore with parentheses := hclosed }⟩
    · exact ⟨rfl, hmore⟩

theorem push?_eq (hwithin : page.Within count) (hfits : count + 3 < Machine.signedSize)
    (token : Token) :
    page.push? token = some (page.push token) ∧ (page.push token).Within (count + 3) := by
  obtain ⟨houtdent, hwithin⟩ := outdent?_eq hwithin (by omega) (Keyword.ofToken? token)
  generalize hpage : page.outdent (Keyword.ofToken? token) = outer at houtdent hwithin
  have hwritten : Within { outer with text := outer.text ++ outer.separator ++ token.text }
      (count + 1) := { hwithin with }
  obtain ⟨hkeyword, hwithin⟩ := noteKeyword?_eq hwritten (by omega) (Keyword.ofToken? token)
  obtain ⟨hparenthesis, hwithin⟩ := noteParenthesis?_eq hwithin (by omega) token
  simp only [push?, push, houtdent, hpage, Option.bind_eq_bind, Option.bind_some, hkeyword]
  exact ⟨hparenthesis, hwithin⟩

theorem foldlM_push?_eq {tokens : List Token} (hwithin : page.Within count)
    (hfits : count + 3 * tokens.length < Machine.signedSize) :
    tokens.foldlM push? page = some (tokens.foldl push page) := by
  induction tokens generalizing page count with
  | nil => rfl
  | cons token rest ih =>
      rw [List.length_cons] at hfits
      obtain ⟨hpush, hwithin⟩ := push?_eq hwithin (by omega) token
      rw [List.foldlM_cons, hpush, List.foldl_cons]
      exact ih hwithin (by omega)

end Page

/-- As `script`, with offsets and counters in words. -/
def script? (text : String) : Option (Except LayoutError String) :=
  if Value.isScript text then do
    return (← (← Token.scan? text).foldlM Page.push? {}).finish
  else
    some (.ok text)

/-- A script of less than 2³² bytes is laid out to the end. -/
theorem script?_eq {text : String} (hsize : text.utf8ByteSize < UInt32.size) :
    script? text = some (script text) := by
  have hstart : Page.Within {} 1 := ⟨Nat.le_refl 1, Nat.zero_le 1⟩
  have hfits : 1 + 3 * (Token.scan text).length < Machine.signedSize := by
    have hlength := Token.length_scan_le text
    have hword : UInt32.size = 2 ^ 32 := rfl
    have hsigned : Machine.signedSize = 2 ^ 63 := rfl
    omega
  simp only [script?, script, Token.scan?_eq hsize, Option.bind_eq_bind, Option.bind_some,
    Page.foldlM_push?_eq hstart hfits]
  split <;> rfl

end Layout

end AtScript
