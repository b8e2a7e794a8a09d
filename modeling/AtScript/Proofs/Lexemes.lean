import AtScript.Proofs.LowerCase
import AtScript.Token.Scan

/-! # The pieces of a script

A script is a row of *lexemes*, pieces that are read as one token each, with white space where it is
needed to keep them apart. Only the last piece can be a literal whose closing quote is missing.
-/

namespace AtScript.Token

/-- What a token is apart from its place. -/
def look (token : Token) : TokenKind × String :=
  (token.kind, token.text)

/-! ## Characters -/

/-- Whether a character ends the word before it without being part of it. -/
def endsWord (c : Char) : Bool :=
  c == ',' || c == ')' || c == '@' || Text.isBlankChar c

/-- Whether a character carries a word on. -/
def continuesWord (c : Char) : Bool :=
  c != '(' && !endsWord c

/-- Whether a character between two tokens starts a word. -/
def startsWord (c : Char) : Bool :=
  c != ',' && c != ')' && c != '"' && !Text.isBlankChar c

/-- The characters of a word without a parenthesis at its end. -/
inductive IsWord : List Char → Prop
  | intro {c : Char} {rest : List Char} (hfirst : startsWord c = true)
      (hrest : ∀ d ∈ rest, continuesWord d = true) : IsWord (c :: rest)

/-- Whether the next character is escaped after some characters between quotes. There is no answer
when the closing quote is among them. -/
def escapeState : Bool → List Char → Option Bool
  | escaped, [] => some escaped
  | true, _ :: rest => escapeState false rest
  | false, c :: rest => if c = '"' then none else escapeState (c = '\\') rest

theorem escapeState_append (escaped : Bool) (chars more : List Char) :
    escapeState escaped (chars ++ more) =
      (escapeState escaped chars).bind fun after => escapeState after more := by
  induction chars generalizing escaped with
  | nil => rfl
  | cons c rest ih =>
      cases escaped with
      | true => exact ih false
      | false =>
          simp only [List.cons_append, escapeState]
          split
          · rfl
          · exact ih _

/-- Only a quote that is not escaped closes a literal. -/
theorem eq_quote_of_escapeState {escaped : Bool} {c : Char}
    (hstate : escapeState escaped [c] = none) : escaped = false ∧ c = '"' := by
  cases escaped with
  | true => cases hstate
  | false =>
      rw [escapeState] at hstate
      split at hstate
      next hquote => exact ⟨rfl, hquote⟩
      next => cases hstate

theorem IsWord.append_singleton {chars : List Char} {c : Char} (hword : IsWord chars)
    (hcontinues : continuesWord c = true) : IsWord (chars ++ [c]) := by
  obtain @⟨first, rest, hfirst, hrest⟩ := hword
  refine .intro hfirst ?_
  intro d hmem
  rcases List.mem_append.mp hmem with hmem | hmem
  · exact hrest d hmem
  · rw [List.mem_singleton.mp hmem]
    exact hcontinues

theorem endsWord_of_isBlankChar {c : Char} (hblank : Text.isBlankChar c = true) :
    endsWord c = true := by
  simp [endsWord, hblank]

theorem startsWord_of_not_isMark {c : Char} (hmark : Text.isMark c = false) :
    startsWord c = true := by
  simp only [Text.isMark, Bool.or_eq_false_iff, beq_eq_false_iff_ne] at hmark
  simp [startsWord, hmark]

theorem continuesWord_of_not_isMark {c : Char} (hmark : Text.isMark c = false) :
    continuesWord c = true := by
  simp only [Text.isMark, Bool.or_eq_false_iff, beq_eq_false_iff_ne] at hmark
  simp [continuesWord, endsWord, hmark]

theorem isBlankChar_of_continuesWord {c : Char} (hcontinues : continuesWord c = true) :
    Text.isBlankChar c = false := by
  simp only [continuesWord, endsWord, Bool.and_eq_true, Bool.not_eq_true',
    Bool.or_eq_false_iff] at hcontinues
  exact hcontinues.2.2

theorem isBlankChar_of_startsWord {c : Char} (hstart : startsWord c = true) :
    Text.isBlankChar c = false := by
  simp only [startsWord, Bool.and_eq_true, Bool.not_eq_true'] at hstart
  exact hstart.2

/-! ## Steps of a scanner -/

namespace Scanner

variable {offset start : Nat} {text : String} {done : List Token} {c : Char}

/-- A scanner after some characters. -/
def read (scanner : Scanner) (chars : List Char) : Scanner :=
  chars.foldl step scanner

@[simp]
theorem read_nil (scanner : Scanner) : scanner.read [] = scanner := rfl

@[simp]
theorem read_cons (scanner : Scanner) (c : Char) (chars : List Char) :
    scanner.read (c :: chars) = (scanner.step c).read chars := rfl

theorem read_append (scanner : Scanner) (chars more : List Char) :
    scanner.read (chars ++ more) = (scanner.read chars).read more :=
  List.foldl_append

/-- A scanner that takes its pending token for complete. -/
def settle (scanner : Scanner) : Scanner :=
  ⟨scanner.offset, .nothing, scanner.pending.finish ++ scanner.done⟩

/-- A scanner that has read all of a script. -/
def atEnd (script : String) : Scanner :=
  read {} script.toList

theorem scan_eq (script : String) : scan script = (atEnd script).tokens := rfl

theorem atEnd_append (first second : String) :
    atEnd (first ++ second) = (atEnd first).read second.toList := by
  rw [atEnd, String.toList_append, read_append, atEnd]

theorem step_blank (hblank : Text.isBlankChar c = true) :
    step ⟨offset, .nothing, done⟩ c = ⟨offset + c.utf8Size, .nothing, done⟩ := by
  have hne (d : Char) (hd : Text.isBlankChar d = false) : c ≠ d := by
    rintro rfl
    exact absurd hblank (by simp [hd])
  simp only [step, begin, hblank, if_true, hne ',' (by decide), hne ')' (by decide),
    hne '"' (by decide), if_false]

theorem step_startsWord (hstart : startsWord c = true) :
    step ⟨offset, .nothing, done⟩ c = ⟨offset + c.utf8Size, .word offset c.toString, done⟩ := by
  simp only [startsWord, Bool.and_eq_true, bne_iff_ne, Bool.not_eq_true'] at hstart
  obtain ⟨⟨⟨hcomma, hclose⟩, hquote⟩, hblank⟩ := hstart
  simp [step, begin, hcomma, hclose, hquote, hblank]

theorem step_continuesWord (hcontinues : continuesWord c = true) :
    step ⟨offset, .word start text, done⟩ c =
      ⟨offset + c.utf8Size, .word start (text.push c), done⟩ := by
  simp only [continuesWord, endsWord, Bool.and_eq_true, bne_iff_ne, Bool.not_eq_true',
    Bool.or_eq_false_iff, beq_eq_false_iff_ne] at hcontinues
  obtain ⟨hopen, ⟨⟨hcomma, hclose⟩, hat⟩, hblank⟩ := hcontinues
  simp [step, hopen, hcomma, hclose, hat, hblank]

theorem step_parenthesis :
    step ⟨offset, .word start text, done⟩ '(' =
      ⟨offset + 1, .nothing, ofWord start (text.push '(') :: done⟩ := rfl

/-- A character that ends a word is read as if the word had been complete. -/
theorem step_endsWord (hends : endsWord c = true) :
    step ⟨offset, .word start text, done⟩ c =
      step ⟨offset, .nothing, ofWord start text :: done⟩ c := by
  have hopen : c ≠ '(' := by
    rintro rfl
    exact absurd hends (by decide)
  simp only [endsWord, Bool.or_eq_true, beq_iff_eq, or_assoc] at hends
  simp only [step, hopen, if_false, hends, if_true]

theorem step_quoted {escaped after : Bool} (hstate : escapeState escaped [c] = some after) :
    step ⟨offset, .quote start text escaped, done⟩ c =
      ⟨offset + c.utf8Size, .quote start (text.push c) after, done⟩ := by
  cases escaped with
  | true =>
      cases hstate
      rfl
  | false =>
      rw [escapeState] at hstate
      split at hstate
      next => cases hstate
      next hquote =>
        cases hstate
        simp only [step, hquote, if_false]

theorem step_closingQuote :
    step ⟨offset, .quote start text false, done⟩ '"' =
      ⟨offset + 1, .nothing, ofQuote start (text.push '"') :: done⟩ := rfl

theorem step_settle {scanner : Scanner}
    (hbreak : scanner.pending = .nothing ∨
      endsWord c = true ∧ ∃ start text, scanner.pending = .word start text) :
    scanner.step c = scanner.settle.step c := by
  obtain ⟨offset, pending, done⟩ := scanner
  rcases hbreak with rfl | ⟨hends, start, text, rfl⟩
  · rfl
  · exact step_endsWord hends

/-! ## Rows of characters -/

theorem read_blank {chars : List Char} (hblank : ∀ c ∈ chars, Text.isBlankChar c = true) :
    read ⟨offset, .nothing, done⟩ chars = ⟨offset + Text.byteLength chars, .nothing, done⟩ := by
  induction chars generalizing offset with
  | nil => rfl
  | cons c rest ih =>
      rw [List.forall_mem_cons] at hblank
      rw [read_cons, step_blank hblank.1, ih hblank.2, Text.byteLength, Nat.add_assoc]

theorem push_append_ofList (text : String) (c : Char) (chars : List Char) :
    text.push c ++ String.ofList chars = text ++ String.ofList (c :: chars) := by
  rw [String.ofList_cons, ← String.append_assoc, String.append_singleton]

theorem push_ofList (chars : List Char) (c : Char) :
    (String.ofList chars).push c = String.ofList (chars ++ [c]) := by
  rw [String.ofList_append, ← String.append_singleton]
  rfl

theorem read_continuesWord {chars : List Char} (hchars : ∀ c ∈ chars, continuesWord c = true) :
    read ⟨offset, .word start text, done⟩ chars =
      ⟨offset + Text.byteLength chars, .word start (text ++ String.ofList chars), done⟩ := by
  induction chars generalizing offset text with
  | nil => simp [Text.byteLength]
  | cons c rest ih =>
      rw [List.forall_mem_cons] at hchars
      rw [read_cons, step_continuesWord hchars.1, ih hchars.2, Text.byteLength, Nat.add_assoc,
        push_append_ofList]

theorem read_word {chars : List Char} (hword : IsWord chars) :
    read ⟨offset, .nothing, done⟩ chars =
      ⟨offset + Text.byteLength chars, .word offset (String.ofList chars), done⟩ := by
  obtain @⟨c, rest, hfirst, hrest⟩ := hword
  rw [read_cons, step_startsWord hfirst, read_continuesWord hrest, Text.byteLength, Nat.add_assoc,
    String.ofList_cons]
  rfl

theorem read_quoted {chars : List Char} {escaped after : Bool}
    (hstate : escapeState escaped chars = some after) :
    read ⟨offset, .quote start text escaped, done⟩ chars =
      ⟨offset + Text.byteLength chars, .quote start (text ++ String.ofList chars) after, done⟩ := by
  induction chars generalizing offset text escaped with
  | nil =>
      cases hstate
      simp [Text.byteLength]
  | cons c rest ih =>
      rw [← List.singleton_append, escapeState_append, Option.bind_eq_some_iff] at hstate
      obtain ⟨middle, hfirst, hrest⟩ := hstate
      rw [read_cons, step_quoted hfirst, ih hrest, Text.byteLength, Nat.add_assoc,
        push_append_ofList]

theorem read_opening {chars : List Char} (hword : IsWord chars) :
    read ⟨offset, .nothing, done⟩ (chars ++ ['(']) =
      ⟨offset + Text.byteLength chars + 1, .nothing,
        ofWord offset (String.ofList (chars ++ ['('])) :: done⟩ := by
  rw [read_append, read_word hword, read_cons, step_parenthesis, push_ofList]
  rfl

theorem read_literal {chars : List Char} (hstate : escapeState false chars = some false) :
    read ⟨offset, .nothing, done⟩ ('"' :: (chars ++ ['"'])) =
      ⟨offset + 1 + Text.byteLength chars + 1, .nothing,
        ofQuote offset (String.ofList ('"' :: (chars ++ ['"']))) :: done⟩ := by
  have hopening : step ⟨offset, .nothing, done⟩ '"' =
      ⟨offset + 1, .quote offset (String.ofList ['"']) false, done⟩ := rfl
  rw [read_cons, hopening, read_append, read_quoted hstate, ← String.ofList_append, read_cons,
    step_closingQuote, push_ofList]
  rfl

end Scanner

/-! ## Lexemes -/

/-- The pieces that are read as one token and need nothing after them, with the token that a piece
becomes at the place `start`. -/
inductive Lexeme (start : Nat) : List Char → Token → Prop
  | comma : Lexeme start [','] ⟨.comma, ",", ⟨start, 1⟩⟩
  | close : Lexeme start [')'] ⟨.close, ")", ⟨start, 1⟩⟩
  | word {chars : List Char} (hword : IsWord chars) :
      Lexeme start chars (ofWord start (String.ofList chars))
  | opening {chars : List Char} (hword : IsWord chars) :
      Lexeme start (chars ++ ['(']) (ofWord start (String.ofList (chars ++ ['('])))
  | quoted {chars : List Char} (hstate : escapeState false chars = some false) :
      Lexeme start ('"' :: (chars ++ ['"']))
        (ofQuote start (String.ofList ('"' :: (chars ++ ['"']))))

/-- The tokens of some characters that start at `offset`. -/
inductive Pieces : Nat → List Char → List Token → Prop
  | nil {offset : Nat} : Pieces offset [] []
  | blank {offset : Nat} {c : Char} {chars : List Char} {tokens : List Token}
      (hblank : Text.isBlankChar c = true) (hrest : Pieces (offset + c.utf8Size) chars tokens) :
      Pieces offset (c :: chars) tokens
  | lexeme {offset : Nat} {piece chars : List Char} {token : Token} {tokens : List Token}
      (hlexeme : Lexeme offset piece token)
      (hrest : Pieces (offset + Text.byteLength piece) chars tokens) :
      Pieces offset (piece ++ chars) (token :: tokens)
  | unclosed {offset : Nat} {chars : List Char} {escaped : Bool}
      (hstate : escapeState false chars = some escaped) :
      Pieces offset ('"' :: chars) [ofQuote offset (String.ofList ('"' :: chars))]

namespace Scanner

variable {offset start : Nat} {text : String} {done : List Token} {c : Char}

/-- The piece of a script that a pending token has taken, from the place `start` on. -/
inductive Holds (start : Nat) : Pending → List Char → Prop
  | nothing : Holds start .nothing []
  | word {chars : List Char} (hword : IsWord chars) :
      Holds start (.word start (String.ofList chars)) chars
  | quote {chars : List Char} {escaped : Bool}
      (hstate : escapeState false chars = some escaped) :
      Holds start (.quote start (String.ofList ('"' :: chars)) escaped) ('"' :: chars)

/-- Between two tokens, a character is white space, stands for itself, or starts a token. -/
theorem exists_pieces_read_cons {rest : List Char}
    (ih : ∀ {start : Nat} {pending : Pending} {piece : List Char}, Holds start pending piece →
      ∀ done, ∃ tokens, (read ⟨start + Text.byteLength piece, pending, done⟩ rest).tokens =
        done.reverse ++ tokens ∧ Pieces start (piece ++ rest) tokens)
    (start : Nat) (done : List Token) (c : Char) :
    ∃ tokens, (read ⟨start, .nothing, done⟩ (c :: rest)).tokens = done.reverse ++ tokens ∧
      Pieces start (c :: rest) tokens := by
  by_cases hcomma : c = ','
  · subst hcomma
    obtain ⟨tokens, htokens, hpieces⟩ := ih .nothing (⟨.comma, ",", ⟨start, 1⟩⟩ :: done)
    refine ⟨_, ?_, .lexeme .comma hpieces⟩
    rw [read_cons]
    exact htokens.trans (by simp)
  by_cases hclose : c = ')'
  · subst hclose
    obtain ⟨tokens, htokens, hpieces⟩ := ih .nothing (⟨.close, ")", ⟨start, 1⟩⟩ :: done)
    refine ⟨_, ?_, .lexeme .close hpieces⟩
    rw [read_cons]
    exact htokens.trans (by simp)
  by_cases hquote : c = '"'
  · subst hquote
    have hstate : escapeState false [] = some false := rfl
    exact ih (.quote hstate) done
  by_cases hblank : Text.isBlankChar c = true
  · obtain ⟨tokens, htokens, hpieces⟩ := ih .nothing done
    refine ⟨tokens, ?_, .blank hblank hpieces⟩
    rw [read_cons, step_blank hblank]
    exact htokens
  · have hstart : startsWord c = true := by simp [startsWord, hcomma, hclose, hquote, hblank]
    have hword : IsWord [c] := .intro hstart (by simp)
    rw [read_cons, step_startsWord hstart]
    exact ih (.word hword) done

/-- Whatever is pending, reading on gives the tokens of the pieces, the pending one included. -/
theorem exists_pieces_read {start : Nat} {pending : Pending} {piece : List Char}
    (hholds : Holds start pending piece) (done : List Token) (chars : List Char) :
    ∃ tokens, (read ⟨start + Text.byteLength piece, pending, done⟩ chars).tokens =
      done.reverse ++ tokens ∧ Pieces start (piece ++ chars) tokens := by
  induction chars generalizing start pending piece done with
  | nil =>
      cases hholds with
      | nothing => exact ⟨[], by simp [tokens, Pending.finish], .nil⟩
      | word hword =>
          refine ⟨_, ?_, .lexeme (.word hword) .nil⟩
          simp [tokens, Pending.finish]
      | quote hstate =>
          refine ⟨_, ?_, by simpa using .unclosed hstate⟩
          simp [tokens, Pending.finish]
  | cons c rest ih =>
      have hbetween := exists_pieces_read_cons fun hholds done => ih hholds done
      -- A character that is taken into a piece leaves the same characters after it.
      have hgrown : piece ++ c :: rest = (piece ++ [c]) ++ rest := by simp
      have hplace : start + Text.byteLength piece + c.utf8Size =
          start + Text.byteLength (piece ++ [c]) := by
        rw [Text.byteLength_append, Text.byteLength, Text.byteLength, Nat.add_zero, Nat.add_assoc]
      cases hholds with
      | nothing => exact hbetween start done c
      | word hword =>
          by_cases hends : endsWord c = true
          · obtain ⟨tokens, htokens, hpieces⟩ := hbetween (start + Text.byteLength piece)
              (ofWord start (String.ofList piece) :: done) c
            refine ⟨_, ?_, .lexeme (.word hword) hpieces⟩
            rw [read_cons, step_endsWord hends, ← read_cons, htokens]
            simp
          rw [read_cons, hgrown]
          by_cases hopen : c = '('
          · subst hopen
            obtain ⟨tokens, htokens, hpieces⟩ :=
              ih .nothing (ofWord start (String.ofList (piece ++ ['('])) :: done)
            refine ⟨_, ?_, .lexeme (.opening hword) hpieces⟩
            rw [step_parenthesis, push_ofList]
            rw [← hplace] at htokens
            exact htokens.trans (by simp)
          · have hcontinues : continuesWord c = true := by simp [continuesWord, hopen, hends]
            rw [step_continuesWord hcontinues, hplace, push_ofList]
            exact ih (.word (hword.append_singleton hcontinues)) done
      | @quote chars escaped hstate =>
          rw [read_cons, hgrown]
          cases hnext : escapeState escaped [c] with
          | some after =>
              have hstate' : escapeState false (chars ++ [c]) = some after := by
                rw [escapeState_append, hstate, Option.bind_some, hnext]
              rw [step_quoted hnext, hplace, push_ofList]
              exact ih (.quote hstate') done
          | none =>
              obtain ⟨rfl, rfl⟩ := eq_quote_of_escapeState hnext
              obtain ⟨tokens, htokens, hpieces⟩ :=
                ih .nothing (ofQuote start (String.ofList ('"' :: (chars ++ ['"']))) :: done)
              refine ⟨_, ?_, .lexeme (.quoted hstate) hpieces⟩
              rw [step_closingQuote, push_ofList]
              rw [← hplace] at htokens
              exact htokens.trans (by simp)

theorem scan_pieces (script : String) : Pieces 0 script.toList (scan script) := by
  obtain ⟨tokens, htokens, hpieces⟩ := exists_pieces_read .nothing [] script.toList
  have hscan : scan script = tokens := htokens
  rw [hscan]
  exact hpieces

end Scanner

end AtScript.Token
