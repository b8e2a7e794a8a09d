import AtScript.Proofs.Rereading

/-! # Every text can be written as a literal

A quoted text is read as one literal, which denotes the text. Literals, calls, commas and closing
parentheses need nothing between them: a row of them is read as they stand.
-/

namespace AtScript

namespace Value

/-- Escaped characters are followed by the closing quote and by nothing before it. -/
theorem escapeState_escape (chars : List Char) :
    Token.escapeState false (escape chars) = some false := by
  induction chars with
  | nil => rfl
  | cons c rest ih =>
      rw [escape, List.flatMap_cons, ← escape, Token.escapeState_append]
      split
      · exact ih
      next hplain =>
        rw [not_or] at hplain
        simp [Token.escapeState, hplain, ih]

theorem unescape_escape (chars : List Char) : unescape (escape chars) = chars := by
  induction chars with
  | nil => rfl
  | cons c rest ih =>
      rw [escape, List.flatMap_cons, ← escape]
      split
      next hspecial => simp [unescape, hspecial, ih]
      next hplain =>
        rw [not_or] at hplain
        rw [List.singleton_append, unescape, ih]
        · intro heq
          exact absurd heq hplain.2
        · intro d others heq
          exact absurd heq hplain.2

theorem toList_quote (text : String) :
    (quote text).toList = '"' :: (escape text.toList ++ ['"']) := by
  simp [quote]

/-- A quoted text denotes the text. -/
theorem unquote_quote (text : String) : unquote (quote text) = text := by
  have hfront : (quote text).front? == some '"' := by
    rw [String.front?_eq, toList_quote]
    rfl
  have hdropped : ((quote text).drop 1).copy.toList = escape text.toList ++ ['"'] := by
    rw [String.toList_copy_drop, toList_quote]
    rfl
  have hback : ((quote text).drop 1).copy.back? == some '"' := by
    rw [String.back?_eq, hdropped, List.getLast?_append]
    rfl
  have hinner : (dropFinalQuote ((quote text).drop 1).copy).toList = escape text.toList := by
    rw [dropFinalQuote, if_pos hback, String.toList_copy_dropEnd, hdropped]
    simp
  rw [unquote, if_pos hfront, hinner, unescape_escape, String.ofList_toList]

end Value

namespace Token

/-- A quoted text, as a token. -/
def ofLiteral (text : String) : Token :=
  ⟨.quoted, Value.quote text, default⟩

theorem literalValue_ofLiteral (text : String) : (ofLiteral text).literalValue = text :=
  Value.unquote_quote text

/-! ## Rows of tokens -/

/-- A text that is read, between two tokens, as complete tokens of the given looks. -/
def ReadsAs (text : String) (looks : List (TokenKind × String)) : Prop :=
  ∀ (offset : Nat) (done : List Token), ∃ tokens : List Token,
    Scanner.read ⟨offset, .nothing, done⟩ text.toList =
      ⟨offset + text.utf8ByteSize, .nothing, tokens.reverse ++ done⟩ ∧ tokens.map look = looks

namespace ReadsAs

variable {first second : String} {looks looks' : List (TokenKind × String)}

theorem append (hfirst : ReadsAs first looks) (hsecond : ReadsAs second looks') :
    ReadsAs (first ++ second) (looks ++ looks') := by
  intro offset done
  obtain ⟨tokens, hread, hlooks⟩ := hfirst offset done
  obtain ⟨tokens', hread', hlooks'⟩ :=
    hsecond (offset + first.utf8ByteSize) (tokens.reverse ++ done)
  refine ⟨tokens ++ tokens', ?_, by rw [List.map_append, hlooks, hlooks']⟩
  rw [String.toList_append, Scanner.read_append, hread, hread', String.utf8ByteSize_append,
    Nat.add_assoc, List.reverse_append, List.append_assoc]

/-- White space is read as no token. -/
theorem blank (hblank : Text.isBlank first = true) : ReadsAs first [] := by
  intro offset done
  rw [Text.isBlank_eq, List.all_eq_true] at hblank
  refine ⟨[], ?_, rfl⟩
  rw [Scanner.read_blank hblank, Text.byteLength_toList]
  rfl

/-- A token that does not go on is read as it stands. -/
theorem spelled {token : Token} (hspelled : Spelled token) (hopen : token.isOpen = false) :
    ReadsAs token.text [token.look] := by
  intro offset done
  obtain ⟨scanner, again, hread, hdone, hlook, hquote, hword⟩ := hspelled.read offset done
  have hpending := Scanner.pending_eq_nothing hquote (hword.trans hopen)
  have hoffset := Scanner.offset_read ⟨offset, .nothing, done⟩ token.text.toList
  rw [hread, Text.byteLength_toList] at hoffset
  refine ⟨[again], ?_, by rw [List.map_singleton, hlook]⟩
  obtain ⟨place, pending, complete⟩ := scanner
  subst hpending hoffset
  rw [hread]
  exact congrArg (Scanner.mk _ _) hdone

/-- A token is also read as it stands, even one that would go on, when a text follows that ends
it. -/
theorem spelled_append {token : Token} (hspelled : Spelled token) {c : Char} {rest : List Char}
    (hchars : second.toList = c :: rest) (hends : endsWord c = true)
    (hsecond : ReadsAs second looks) : ReadsAs (token.text ++ second) (token.look :: looks) := by
  intro offset done
  obtain ⟨scanner, again, hread, hdone, hlook, hquote, -⟩ := hspelled.read offset done
  have hoffset := Scanner.offset_read ⟨offset, .nothing, done⟩ token.text.toList
  rw [hread, Text.byteLength_toList] at hoffset
  have hsettled : scanner.settle = ⟨offset + token.text.utf8ByteSize, .nothing, again :: done⟩ := by
    rw [← hdone, ← hoffset]
    rfl
  obtain ⟨tokens, htail, hlooks⟩ := hsecond (offset + token.text.utf8ByteSize) (again :: done)
  refine ⟨again :: tokens, ?_, by rw [List.map_cons, hlook, hlooks]⟩
  rw [String.toList_append, Scanner.read_append, hread]
  rw [hchars] at htail ⊢
  rw [Scanner.read_cons, Scanner.step_eq_step_settle hquote hends, hsettled, ← Scanner.read_cons,
    htail, String.utf8ByteSize_append, Nat.add_assoc, List.reverse_cons, List.append_assoc]
  rfl

/-- A script that is such a text has tokens of these looks. -/
theorem looks_scan (htext : ReadsAs first looks) : (scan first).map look = looks := by
  obtain ⟨tokens, hread, hlooks⟩ := htext 0 []
  have hscan : scan first = (Scanner.read ⟨0, .nothing, []⟩ first.toList).tokens := rfl
  rw [hscan, hread, ← hlooks]
  simp [Scanner.tokens, Pending.finish]

end ReadsAs

theorem readsAs_comma : ReadsAs "," [(.comma, ",")] := by
  have hspelled : Spelled ⟨.comma, ",", default⟩ := .comma
  exact .spelled hspelled rfl

theorem readsAs_close : ReadsAs ")" [(.close, ")")] := by
  have hspelled : Spelled ⟨.close, ")", default⟩ := .close
  exact .spelled hspelled rfl

theorem spelled_ofLiteral (text : String) : Spelled (ofLiteral text) := by
  have hquote : Value.quote text =
      String.ofList ('"' :: (Value.escape text.toList ++ ['"'])) := by
    rw [← Value.toList_quote, String.ofList_toList]
  rw [ofLiteral, hquote]
  exact .quoted (Value.escapeState_escape _)

theorem readsAs_quote (text : String) :
    ReadsAs (Value.quote text) [(.quoted, Value.quote text)] := by
  have hreads := ReadsAs.spelled (spelled_ofLiteral text) (Bool.false_and _)
  exact hreads

end Token

end AtScript
