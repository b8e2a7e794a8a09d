import AtScript.Proofs.Partition

/-! # Scripts read in parts

Scripts with white space between them are read one after the other, unless the first one ends in a
literal without its closing quote, which takes in all that follows. What stands at the place of a
token is read as that token also when it stands alone.
-/

namespace AtScript.Token

/-! ## Literals that take in what follows -/

/-- Whether a token is a quoted literal without its closing quote. -/
def lacksClosingQuote (token : Token) : Bool :=
  token.kind == .quoted && (escapeState false token.text.toList.tail).isSome

/-- A literal that is being read has not met its closing quote. -/
def Pending.Unclosed : Pending → Prop
  | .quote _ text escaped =>
    ∃ chars, text = String.ofList ('"' :: chars) ∧ escapeState false chars = some escaped
  | _ => True

namespace Scanner

theorem unclosed_begin (offset : Nat) (done : List Token) (c : Char) :
    (begin offset done c).pending.Unclosed := by
  unfold begin
  split
  · trivial
  split
  · trivial
  split
  · exact ⟨[], rfl, rfl⟩
  split <;> trivial

theorem unclosed_step {scanner : Scanner} (hpending : scanner.pending.Unclosed) (c : Char) :
    (scanner.step c).pending.Unclosed := by
  obtain ⟨offset, pending, done⟩ := scanner
  cases pending with
  | nothing => exact unclosed_begin offset done c
  | word start text =>
      simp only [step]
      split
      · trivial
      split
      · exact unclosed_begin _ _ c
      · trivial
  | quote start text escaped =>
      obtain ⟨chars, rfl, hstate⟩ := hpending
      cases hnext : escapeState escaped [c] with
      | none =>
          obtain ⟨rfl, rfl⟩ := eq_quote_of_escapeState hnext
          rw [step_closingQuote]
          trivial
      | some after =>
          rw [step_quoted hnext]
          refine ⟨chars ++ [c], push_ofList _ c, ?_⟩
          rw [escapeState_append, hstate, Option.bind_some, hnext]

theorem unclosed_read {scanner : Scanner} (hpending : scanner.pending.Unclosed)
    (chars : List Char) : (scanner.read chars).pending.Unclosed := by
  induction chars generalizing scanner with
  | nil => exact hpending
  | cons c rest ih => exact ih (unclosed_step hpending c)

/-- A scanner that is inside a literal has it as its last token. -/
theorem exists_getLast?_of_inQuote {scanner : Scanner} (hpending : scanner.pending.Unclosed)
    (hquote : scanner.inQuote = true) :
    ∃ token, scanner.tokens.getLast? = some token ∧ token.lacksClosingQuote = true := by
  obtain ⟨offset, pending, done⟩ := scanner
  cases pending with
  | nothing => cases hquote
  | word start text => cases hquote
  | quote start text escaped =>
      obtain ⟨chars, rfl, hstate⟩ := hpending
      refine ⟨ofQuote start (String.ofList ('"' :: chars)), ?_, ?_⟩
      · simp [tokens, Pending.finish]
      · simp [lacksClosingQuote, ofQuote, hstate]

end Scanner

theorem endsInQuote_of_getLast? {script : String}
    (hlast : ∀ token ∈ (scan script).getLast?, token.lacksClosingQuote = false) :
    endsInQuote script = false := by
  rw [← Bool.not_eq_true]
  intro hquote
  have hstart : ({} : Scanner).pending.Unclosed := trivial
  have hpending : (Scanner.atEnd script).pending.Unclosed :=
    Scanner.unclosed_read hstart script.toList
  obtain ⟨token, htoken, hlacks⟩ := Scanner.exists_getLast?_of_inQuote hpending hquote
  rw [hlast token htoken] at hlacks
  cases hlacks

/-! ## Pieces that stand alone -/

theorem scan_ofList (chars : List Char) :
    scan (String.ofList chars) = (Scanner.read ⟨0, .nothing, []⟩ chars).tokens := by
  rw [scan, String.toList_ofList]
  rfl

theorem scan_word {chars : List Char} (hword : IsWord chars) :
    scan (String.ofList chars) = [ofWord 0 (String.ofList chars)] := by
  rw [scan_ofList, Scanner.read_word hword]
  rfl

theorem scan_opening {chars : List Char} (hword : IsWord chars) :
    scan (String.ofList (chars ++ ['('])) = [ofWord 0 (String.ofList (chars ++ ['(']))] := by
  rw [scan_ofList, Scanner.read_opening hword]
  rfl

theorem scan_quoted {chars : List Char} (hstate : escapeState false chars = some false) :
    scan (String.ofList ('"' :: (chars ++ ['"']))) =
      [ofQuote 0 (String.ofList ('"' :: (chars ++ ['"'])))] := by
  rw [scan_ofList, Scanner.read_literal hstate]
  rfl

theorem scan_unclosed {chars : List Char} {escaped : Bool}
    (hstate : escapeState false chars = some escaped) :
    scan (String.ofList ('"' :: chars)) = [ofQuote 0 (String.ofList ('"' :: chars))] := by
  have hopening : Scanner.step ⟨0, .nothing, []⟩ '"' =
      ⟨1, .quote 0 (String.ofList ['"']) false, []⟩ := rfl
  rw [scan_ofList, Scanner.read_cons, hopening, Scanner.read_quoted hstate, ← String.ofList_append]
  rfl

/-- A piece of a script is read as the same token when it stands alone, only at another place. -/
theorem Piece.exists_scan {start : Nat} {piece : List Char} {token : Token}
    (hpiece : Piece start piece token) :
    ∃ alone, scan (String.ofList piece) = [alone] ∧ alone.span.start = 0 ∧
      token = alone.shift start := by
  have hword (text : String) : (ofWord 0 text).span.start = 0 ∧
      ofWord start text = (ofWord 0 text).shift start := by
    rw [span_ofWord, ← ofWord_shift, Nat.zero_add]
    exact ⟨rfl, rfl⟩
  have hquote (text : String) : (ofQuote 0 text).span.start = 0 ∧
      ofQuote start text = (ofQuote 0 text).shift start := by
    simp [ofQuote, shift]
  cases hpiece with
  | unclosed hstate => exact ⟨_, scan_unclosed hstate, hquote _⟩
  | lexeme hlexeme =>
      cases hlexeme with
      | comma => exact ⟨⟨.comma, ",", ⟨0, 1⟩⟩, by decide +kernel, rfl, by simp [shift]⟩
      | close => exact ⟨⟨.close, ")", ⟨0, 1⟩⟩, by decide +kernel, rfl, by simp [shift]⟩
      | word hchars => exact ⟨_, scan_word hchars, hword _⟩
      | opening hchars => exact ⟨_, scan_opening hchars, hword _⟩
      | quoted hstate => exact ⟨_, scan_quoted hstate, hquote _⟩

/-! ## Whole scripts -/

end AtScript.Token
