import AtScript.Proofs.Lexemes

/-! # Reading joined texts

White space after a script ends its last token, unless that is a literal without its closing quote;
what follows is then read as if it stood alone, only further on. Without white space, a word can run
on into the next text and becomes longer.
-/

namespace AtScript.Token

/-! ## Places -/

/-- A token that stands some bytes further on. -/
def shift (bytes : Nat) (token : Token) : Token :=
  { token with span := { token.span with start := token.span.start + bytes } }

@[simp]
theorem look_shift (bytes : Nat) (token : Token) : (token.shift bytes).look = token.look := rfl

theorem ofWord_shift (bytes start : Nat) (text : String) :
    ofWord (start + bytes) text = (ofWord start text).shift bytes := by
  unfold ofWord
  split <;> rfl

def Pending.shift (bytes : Nat) : Pending → Pending
  | .nothing => .nothing
  | .word start text => .word (start + bytes) text
  | .quote start text escaped => .quote (start + bytes) text escaped

theorem Pending.finish_shift (bytes : Nat) (pending : Pending) :
    (pending.shift bytes).finish = pending.finish.map (Token.shift bytes) := by
  cases pending with
  | nothing => rfl
  | word start text => exact congrArg (fun token => [token]) (ofWord_shift bytes start text)
  | quote start text escaped => rfl

namespace Scanner

/-- A scanner that stands some bytes further on and has read some tokens before. -/
def shift (bytes : Nat) (earlier : List Token) (scanner : Scanner) : Scanner :=
  ⟨scanner.offset + bytes, scanner.pending.shift bytes,
    scanner.done.map (Token.shift bytes) ++ earlier⟩

variable (bytes : Nat) (earlier : List Token)

theorem begin_shift (offset : Nat) (done : List Token) (c : Char) :
    begin (offset + bytes) (done.map (Token.shift bytes) ++ earlier) c =
      (begin offset done c).shift bytes earlier := by
  have hnext : offset + bytes + c.utf8Size = offset + c.utf8Size + bytes := by omega
  simp only [begin, hnext]
  repeat' split
  all_goals rfl

/-- Neither its place nor earlier tokens have a part in what a scanner does. -/
theorem step_shift (scanner : Scanner) (c : Char) :
    (scanner.shift bytes earlier).step c = (scanner.step c).shift bytes earlier := by
  obtain ⟨offset, pending, done⟩ := scanner
  have hnext : offset + bytes + c.utf8Size = offset + c.utf8Size + bytes := by omega
  cases pending with
  | nothing => exact begin_shift bytes earlier offset done c
  | word start text =>
      simp only [shift, Pending.shift, step, hnext]
      split
      · rw [ofWord_shift]
        rfl
      split
      · rw [ofWord_shift]
        exact begin_shift bytes earlier offset (ofWord start text :: done) c
      · rfl
  | quote start text escaped =>
      cases escaped with
      | true => simp only [shift, Pending.shift, step, hnext]
      | false =>
          simp only [shift, Pending.shift, step, hnext]
          split <;> rfl

theorem read_shift (scanner : Scanner) (chars : List Char) :
    (scanner.shift bytes earlier).read chars = (scanner.read chars).shift bytes earlier := by
  induction chars generalizing scanner with
  | nil => rfl
  | cons c rest ih => rw [read_cons, read_cons, step_shift, ih]

theorem tokens_shift (scanner : Scanner) :
    (scanner.shift bytes earlier).tokens =
      earlier.reverse ++ scanner.tokens.map (Token.shift bytes) := by
  simp [tokens, shift, Pending.finish_shift]

/-- Between two tokens, a text is read as if it stood alone. -/
theorem tokens_read_nothing (offset : Nat) (done : List Token) (chars : List Char) :
    (read ⟨offset, .nothing, done⟩ chars).tokens =
      done.reverse ++ (scan (String.ofList chars)).map (Token.shift offset) := by
  have hstart : (⟨offset, .nothing, done⟩ : Scanner) = ({} : Scanner).shift offset done := by
    simp [shift, Pending.shift]
  rw [hstart, read_shift, tokens_shift, scan, String.toList_ofList]
  rfl

theorem offset_step (scanner : Scanner) (c : Char) :
    (scanner.step c).offset = scanner.offset + c.utf8Size := by
  unfold step begin
  repeat' split
  all_goals rfl

theorem offset_read (scanner : Scanner) (chars : List Char) :
    (scanner.read chars).offset = scanner.offset + Text.byteLength chars := by
  induction chars generalizing scanner with
  | nil => rfl
  | cons c rest ih => rw [read_cons, ih, offset_step, Text.byteLength, Nat.add_assoc]

theorem offset_atEnd (script : String) : (atEnd script).offset = script.utf8ByteSize := by
  rw [atEnd, offset_read, Text.byteLength_toList, Nat.zero_add]

/-! ## White space between two texts -/

/-- Whether the last token lacks its closing quote. -/
def inQuote (scanner : Scanner) : Bool :=
  match scanner.pending with
  | .quote .. => true
  | _ => false

/-- What ends a word is read as if the last token had been complete. -/
theorem step_eq_step_settle {scanner : Scanner} (hquote : scanner.inQuote = false) {c : Char}
    (hends : endsWord c = true) : scanner.step c = scanner.settle.step c := by
  apply step_settle
  obtain ⟨offset, pending, done⟩ := scanner
  cases pending with
  | nothing => exact .inl rfl
  | word start text => exact .inr ⟨hends, start, text, rfl⟩
  | quote start text escaped => cases hquote

/-- White space completes the last token. -/
theorem read_blank_settle {scanner : Scanner} (hquote : scanner.inQuote = false)
    {chars : List Char} (hne : chars ≠ []) (hblank : ∀ c ∈ chars, Text.isBlankChar c = true) :
    scanner.read chars =
      ⟨scanner.offset + Text.byteLength chars, .nothing, scanner.settle.done⟩ := by
  cases chars with
  | nil => exact absurd rfl hne
  | cons c rest =>
      have hends := endsWord_of_isBlankChar (hblank c List.mem_cons_self)
      rw [read_cons, step_eq_step_settle hquote hends, ← read_cons]
      exact read_blank hblank

theorem tokens_read_blank {scanner : Scanner} (hquote : scanner.inQuote = false)
    {chars : List Char} (hblank : ∀ c ∈ chars, Text.isBlankChar c = true) :
    (scanner.read chars).tokens = scanner.tokens := by
  by_cases hnil : chars = []
  · rw [hnil, read_nil]
  · rw [read_blank_settle hquote hnil hblank]
    rfl

end Scanner

/-- Whether a script ends in a literal without its closing quote. -/
def endsInQuote (script : String) : Bool :=
  (Scanner.atEnd script).inQuote

/-- Scripts with white space between them are read one after the other. -/
theorem scan_append {first blank : String} (hquote : endsInQuote first = false)
    (hne : blank ≠ "") (hblank : Text.isBlank blank = true) (second : String) :
    scan (first ++ blank ++ second) =
      scan first ++ (scan second).map (shift (first ++ blank).utf8ByteSize) := by
  have hchars : blank.toList ≠ [] := mt String.toList_eq_nil_iff.mp hne
  have hread : Scanner.atEnd (first ++ blank) =
      ⟨(first ++ blank).utf8ByteSize, .nothing, (Scanner.atEnd first).settle.done⟩ := by
    rw [Text.isBlank_eq, List.all_eq_true] at hblank
    rw [Scanner.atEnd_append, Scanner.read_blank_settle hquote hchars hblank, Scanner.offset_atEnd,
      Text.byteLength_toList, String.utf8ByteSize_append]
  rw [Scanner.scan_eq, Scanner.atEnd_append, hread, Scanner.tokens_read_nothing,
    String.ofList_toList]
  rfl

/-! ## Words that run on -/

/-- A word takes what follows into itself, up to a character that ends it. -/
theorem Scanner.exists_tokens_read_word (offset start : Nat) (text : String) (done : List Token)
    (chars : List Char) :
    ∃ taken others, (read ⟨offset, .word start text, done⟩ chars).tokens =
        done.reverse ++ ofWord start (text ++ taken) :: others ∧
      ((∃ c ∈ chars.head?, endsWord c = false) → taken ≠ "") := by
  induction chars generalizing offset text with
  | nil => exact ⟨"", [], by simp [tokens, Pending.finish], by simp⟩
  | cons c rest ih =>
      by_cases hopen : c = '('
      · subst hopen
        refine ⟨"(", (scan (String.ofList rest)).map (Token.shift (offset + 1)), ?_, by simp⟩
        rw [read_cons, step_parenthesis, tokens_read_nothing, List.reverse_cons, List.append_assoc]
        rfl
      by_cases hends : endsWord c = true
      · refine ⟨"", (scan (String.ofList (c :: rest))).map (Token.shift offset), ?_,
          by simp [hends]⟩
        rw [read_cons, step_endsWord hends, ← read_cons, tokens_read_nothing, List.reverse_cons,
          List.append_assoc, String.append_empty]
        rfl
      · have hcontinues : continuesWord c = true := by simp [continuesWord, hopen, hends]
        obtain ⟨taken, others, htokens, -⟩ := ih (offset + c.utf8Size) (text.push c)
        refine ⟨String.singleton c ++ taken, others, ?_, ?_⟩
        · rw [read_cons, step_continuesWord hcontinues, htokens, ← String.append_singleton,
            String.append_assoc]
        · intro _ hempty
          simpa using congrArg String.toList hempty

theorem text_ofWord (start : Nat) (text : String) :
    (ofWord start text).text = if text.front? = some '@' then Text.lower text else text := by
  simp only [ofWord, beq_iff_eq]
  split <;> rfl

/-- A word that has become longer is another word. -/
theorem text_ofWord_append_ne (start : Nat) (text : String) {taken : String} (hne : taken ≠ "") :
    (ofWord start (text ++ taken)).text ≠ (ofWord start text).text := by
  have hlonger : text.length < (text ++ taken).length := by
    have hpos : 0 < taken.length := Nat.pos_of_ne_zero (mt String.length_eq_zero_iff.mp hne)
    rw [String.length_append]
    omega
  have hlower : (Text.lower text).length < (Text.lower (text ++ taken)).length :=
    Text.length_lower_lt hne
  intro heq
  have hlength := congrArg String.length heq
  rw [text_ofWord, text_ofWord, String.front?_eq, String.front?_eq, String.toList_append] at hlength
  cases hchars : text.toList with
  | nil =>
      have hzero : text.length = 0 := by rw [← String.length_toList, hchars, List.length_nil]
      simp only [hchars, List.nil_append, List.head?_nil, reduceCtorEq, if_false] at hlength
      split at hlength <;> omega
  | cons c rest =>
      rw [hchars, List.cons_append, List.head?_cons, List.head?_cons] at hlength
      split at hlength <;> omega

end AtScript.Token
