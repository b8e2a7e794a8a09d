import AtScript.Proofs.Joining
import AtScript.Proofs.Spans

/-! # Tokens partition their script

The places of the tokens of a script follow one another without overlap, and between them there is
nothing but white space. The text of a token is what stands at its place, in lower case if the token
is a command.
-/

namespace AtScript

namespace Span

/-- The offset behind the last byte. -/
def stop (span : Span) : Nat :=
  span.start + span.length

/-- Whether a byte belongs to a range. -/
def Covers (span : Span) (offset : Nat) : Prop :=
  span.start ≤ offset ∧ offset < span.stop

instance (span : Span) (offset : Nat) : Decidable (span.Covers offset) :=
  inferInstanceAs (Decidable (_ ∧ _))

end Span

namespace Token

/-! ## Single pieces -/

/-- Whether the text of a token is put in lower case. -/
def IsLowered (token : Token) : Prop :=
  token.kind = .call ∨ token.kind = .word ∧ token.hasAt = true

instance (token : Token) : Decidable token.IsLowered :=
  inferInstanceAs (Decidable (_ ∨ _))

/-- The token of a word is put in lower case exactly when the word starts with `@`. -/
theorem isLowered_ofWord (start : Nat) (text : String) :
    (ofWord start text).IsLowered ↔ text.front? = some '@' := by
  by_cases hfront : text.front? = some '@'
  · have hhead := hfront
    rw [String.front?_eq] at hhead
    obtain ⟨rest, hchars⟩ := List.head?_eq_some_iff.mp hhead
    have hat : (Text.lower text).front? = some '@' := by
      rw [String.front?_eq, Text.toList_lower, hchars, Text.lowerFrom]
      simp [Text.lowerChar]
    simp only [IsLowered, ofWord, hasAt, hfront, beq_self_eq_true, if_true, hat, and_true, iff_true]
    split
    · exact .inl rfl
    · exact .inr rfl
  · simp [IsLowered, ofWord, hasAt, hfront]

/-- A piece of a script and the token that it is read as, at the place `start`. -/
structure IsSlice (start : Nat) (piece : List Char) (token : Token) : Prop where
  nonempty : piece ≠ []
  span : token.span = ⟨start, Text.byteLength piece⟩
  text : token.text =
    if token.IsLowered then Text.lower (String.ofList piece) else String.ofList piece

theorem byteLength_eq_utf8ByteSize (chars : List Char) :
    Text.byteLength chars = (String.ofList chars).utf8ByteSize := by
  rw [← Text.byteLength_toList, String.toList_ofList]

theorem isSlice_ofWord (start : Nat) {piece : List Char} (hne : piece ≠ []) :
    IsSlice start piece (ofWord start (String.ofList piece)) where
  nonempty := hne
  span := by rw [span_ofWord, byteLength_eq_utf8ByteSize]
  text := by simp only [text_ofWord, isLowered_ofWord]

theorem isSlice_ofQuote (start : Nat) {piece : List Char} (hne : piece ≠ []) :
    IsSlice start piece (ofQuote start (String.ofList piece)) where
  nonempty := hne
  span := by rw [ofQuote, byteLength_eq_utf8ByteSize]
  text := by simp [IsLowered, ofQuote]

theorem Lexeme.isSlice {start : Nat} {piece : List Char} {token : Token}
    (hlexeme : Lexeme start piece token) : IsSlice start piece token := by
  cases hlexeme with
  | comma => exact ⟨by simp, rfl, rfl⟩
  | close => exact ⟨by simp, rfl, rfl⟩
  | word hword =>
      obtain ⟨hfirst, hrest⟩ := hword
      exact isSlice_ofWord start (by simp)
  | opening hword => exact isSlice_ofWord start (by simp)
  | quoted hstate => exact isSlice_ofQuote start (by simp)

/-- The pieces that are read as one token, with the closing quote of a literal or without it. -/
inductive Piece (start : Nat) : List Char → Token → Prop
  | lexeme {piece : List Char} {token : Token} (hlexeme : Lexeme start piece token) :
      Piece start piece token
  | unclosed {chars : List Char} {escaped : Bool}
      (hstate : escapeState false chars = some escaped) :
      Piece start ('"' :: chars) (ofQuote start (String.ofList ('"' :: chars)))

theorem Piece.isSlice {start : Nat} {piece : List Char} {token : Token}
    (hpiece : Piece start piece token) : IsSlice start piece token := by
  cases hpiece with
  | lexeme hlexeme => exact hlexeme.isSlice
  | unclosed hstate => exact isSlice_ofQuote start (by simp)

namespace IsSlice

variable {start : Nat} {piece : List Char} {token : Token}

theorem length_pos (hslice : IsSlice start piece token) : 0 < token.span.length := by
  rw [hslice.span]
  exact Nat.lt_of_lt_of_le (List.length_pos_iff.mpr hslice.nonempty)
    (Text.length_le_byteLength piece)

theorem stop_eq (hslice : IsSlice start piece token) :
    token.span.stop = start + Text.byteLength piece := by
  rw [Span.stop, hslice.span]

/-- Every character of a piece starts inside the place of its token. -/
theorem covers (hslice : IsSlice start piece token) {before after : List Char} {c : Char}
    (hpiece : piece = before ++ c :: after) :
    token.span.Covers (start + Text.byteLength before) := by
  have hpos := Char.utf8Size_pos c
  refine ⟨by rw [hslice.span]; exact Nat.le_add_right _ _, ?_⟩
  rw [hslice.stop_eq, hpiece, Text.byteLength_append, Text.byteLength]
  omega

end IsSlice

/-! ## Rows of pieces -/

namespace Pieces

variable {offset : Nat} {chars : List Char} {tokens : List Token}

theorem le_start (hpieces : Pieces offset chars tokens) :
    ∀ token ∈ tokens, offset ≤ token.span.start := by
  induction hpieces with
  | nil => simp
  | blank hblank hrest ih =>
      intro token hmem
      exact Nat.le_trans (Nat.le_add_right _ _) (ih token hmem)
  | lexeme hlexeme hrest ih =>
      intro token hmem
      rcases List.mem_cons.mp hmem with rfl | hmem
      · exact Nat.le_of_eq (congrArg Span.start hlexeme.isSlice.span).symm
      · exact Nat.le_trans (Nat.le_add_right _ _) (ih token hmem)
  | unclosed hstate =>
      intro token hmem
      rw [List.mem_singleton.mp hmem]
      exact Nat.le_refl _

/-- Each token ends before the next one starts. -/
theorem pairwise (hpieces : Pieces offset chars tokens) :
    tokens.Pairwise fun first second => first.span.stop ≤ second.span.start := by
  induction hpieces with
  | nil => exact .nil
  | blank hblank hrest ih => exact ih
  | lexeme hlexeme hrest ih =>
      refine List.pairwise_cons.mpr ⟨fun second hmem => ?_, ih⟩
      rw [hlexeme.isSlice.stop_eq]
      exact hrest.le_start second hmem
  | unclosed hstate => exact List.pairwise_singleton _ _

/-- Every token is read from a piece. -/
theorem exists_piece (hpieces : Pieces offset chars tokens) {token : Token}
    (hmem : token ∈ tokens) :
    ∃ before piece after, chars = before ++ piece ++ after ∧
      Piece (offset + Text.byteLength before) piece token := by
  induction hpieces with
  | nil => cases hmem
  | @blank offset c chars tokens hblank hrest ih =>
      obtain ⟨before, piece, after, rfl, hpiece⟩ := ih hmem
      refine ⟨c :: before, piece, after, rfl, ?_⟩
      rwa [Text.byteLength, ← Nat.add_assoc]
  | @lexeme offset first chars _ tokens hlexeme hrest ih =>
      rcases List.mem_cons.mp hmem with rfl | hmem
      · exact ⟨[], first, chars, rfl, .lexeme hlexeme⟩
      · obtain ⟨before, piece, after, rfl, hpiece⟩ := ih hmem
        refine ⟨first ++ before, piece, after, by simp only [List.append_assoc], ?_⟩
        rwa [Text.byteLength_append, ← Nat.add_assoc]
  | @unclosed offset chars escaped hstate =>
      rw [List.mem_singleton.mp hmem]
      exact ⟨[], '"' :: chars, [], by simp, .unclosed hstate⟩

/-- A character that belongs to no token is white space. -/
theorem isBlankChar_of_not_covers (hpieces : Pieces offset chars tokens) {before after : List Char}
    {c : Char} (hchars : chars = before ++ c :: after)
    (houtside : ∀ token ∈ tokens, ¬token.span.Covers (offset + Text.byteLength before)) :
    Text.isBlankChar c = true := by
  induction hpieces generalizing before with
  | nil => simp at hchars
  | @blank offset d chars tokens hblank hrest ih =>
      cases before with
      | nil =>
          cases hchars
          exact hblank
      | cons first before =>
          cases hchars
          apply ih rfl
          rwa [Nat.add_assoc]
  | @lexeme offset piece chars token tokens hlexeme hrest ih =>
      rw [List.forall_mem_cons] at houtside
      rcases List.append_eq_append_iff.mp hchars with
        ⟨middle, rfl, hmiddle⟩ | ⟨middle, hpiece, hmiddle⟩
      -- The character stands behind the piece.
      · apply ih hmiddle
        simpa only [Text.byteLength_append, Nat.add_assoc] using houtside.2
      · cases middle with
        | nil =>
            rw [List.append_nil] at hpiece
            subst hpiece
            have hfront : chars = [] ++ c :: after := hmiddle.symm
            apply ih hfront
            exact houtside.2
        | cons first middle =>
            cases hmiddle
            exact absurd (hlexeme.isSlice.covers hpiece) houtside.1
  | @unclosed offset chars escaped hstate =>
      have hslice := isSlice_ofQuote offset (List.cons_ne_nil '"' chars)
      exact absurd (hslice.covers hchars) (houtside _ List.mem_cons_self)

end Pieces

/-! ## Whole scripts -/

/-- The tokens of a script stand at places that are not empty and follow one another without
overlap; each begins and ends between two characters of the script. The text of a token is what
stands at its place, in lower case exactly when it is a call or a word that starts with `@`. Every
character that belongs to no token is white space. -/
theorem scan_partitions_script (script : String) :
    (scan script).Pairwise (fun first second => first.span.stop ≤ second.span.start) ∧
      (∀ token ∈ scan script, 0 < token.span.length ∧
        ∃ before slice after : String, script = before ++ slice ++ after ∧
          before.utf8ByteSize = token.span.start ∧ slice.utf8ByteSize = token.span.length ∧
          token.text = if token.kind = .call ∨ token.kind = .word ∧ token.hasAt = true
            then Text.lower slice else slice) ∧
      ∀ (before after : String) (c : Char), script = before.push c ++ after →
        (∀ token ∈ scan script, ¬token.span.Covers before.utf8ByteSize) →
        Text.isBlankChar c = true := by
  have hpieces := Scanner.scan_pieces script
  refine ⟨hpieces.pairwise, fun token hmem => ?_, fun before after c hscript houtside => ?_⟩
  · obtain ⟨before, piece, after, hchars, hpiece⟩ := hpieces.exists_piece hmem
    have hslice := hpiece.isSlice
    have hscript : script = String.ofList before ++ String.ofList piece ++ String.ofList after := by
      rw [← String.ofList_append, ← String.ofList_append, ← hchars, String.ofList_toList]
    obtain ⟨hstart, hlength⟩ := Span.mk.inj hslice.span
    refine ⟨hslice.length_pos, _, _, _, hscript, ?_, ?_, hslice.text⟩
    · rw [hstart, byteLength_eq_utf8ByteSize, Nat.zero_add]
    · rw [hlength, byteLength_eq_utf8ByteSize]
  · have hchars : script.toList = before.toList ++ c :: after.toList := by
      rw [hscript, String.toList_append, String.toList_push, List.append_assoc,
        List.singleton_append]
    apply hpieces.isBlankChar_of_not_covers hchars
    rwa [Nat.zero_add, Text.byteLength_toList]

/-- A word of two bytes, a call in capitals and a literal without its closing quote. The tabulator
between the last two belongs to neither. -/
theorem scan_partitions_three_tokens :
    let script := " é@ADD(\t\"a b"
    scan script = [⟨.word, "é", ⟨1, 2⟩⟩, ⟨.call, "@add(", ⟨3, 5⟩⟩, ⟨.quoted, "\"a b", ⟨9, 4⟩⟩] ∧
      script = " é@ADD(".push '\t' ++ "\"a b" ∧
      (∀ token ∈ scan script, ¬token.span.Covers " é@ADD(".utf8ByteSize) ∧
      Text.isBlankChar '\t' = true := by
  intro script
  have hscan : scan script =
      [⟨.word, "é", ⟨1, 2⟩⟩, ⟨.call, "@add(", ⟨3, 5⟩⟩, ⟨.quoted, "\"a b", ⟨9, 4⟩⟩] := by
    decide +kernel
  have hscript : script = " é@ADD(".push '\t' ++ "\"a b" := by decide +kernel
  have houtside : ∀ token ∈ scan script, ¬token.span.Covers " é@ADD(".utf8ByteSize := by
    rw [hscan]
    decide +kernel
  exact ⟨hscan, hscript, houtside,
    (scan_partitions_script script).2.2 _ _ _ hscript houtside⟩

end Token

end AtScript
