import AtScript.Proofs.Places
import AtScript.Proofs.Partition
import AtScript.Proofs.QuotedTokens
import AtScript.Layout
import Mathlib.Data.List.Pairwise

/-! # Commands have no letter case

Names of commands are put in lower case when they are read. So two scripts that spell their commands
with other ASCII letters have the same tokens at the same places, and do the same.
-/

namespace AtScript

namespace Text

/-! ## Letters -/

theorem toLower_of_le {c : Char} (hwide : 128 ≤ c.toNat) : c.toLower = c := by
  have hupper : ¬(c.val ≥ 'A'.val ∧ c.val ≤ 'Z'.val) := by
    rintro ⟨-, hle⟩
    exact absurd (Nat.le_trans hwide (UInt32.le_iff_toNat_le.mp hle)) (by decide)
  exact dif_neg hupper

/-- What is the same for both cases of each ASCII letter is the same for all characters. -/
theorem apply_toLower {α : Type} {f : Char → α}
    (hall : ∀ code < 128, f (Char.ofNat code).toLower = f (Char.ofNat code)) (c : Char) :
    f c.toLower = f c := by
  rcases Nat.lt_or_ge c.toNat 128 with hascii | hwide
  · have hc := hall c.toNat hascii
    rwa [Char.ofNat_toNat] at hc
  · rw [toLower_of_le hwide]

/-- Two characters that differ in their case alone shape no token. -/
theorem not_isMark_of_toLower {c d : Char} (hsame : c.toLower = d.toLower) (hne : c ≠ d) :
    isMark c = false := by
  have hletter (c : Char) : c.toLower = c ∨ isMark c.toLower = false := by
    rcases Nat.lt_or_ge c.toNat 128 with hascii | hwide
    · exact (ascii_toLower hascii).2
    · exact .inl (toLower_of_le hwide)
  rw [← isMark_toLower]
  rcases hletter c with hlower | hmark
  · rcases hletter d with hlower' | hmark
    · exact absurd (hlower.symm.trans (hsame.trans hlower')) hne
    · rw [hsame]
      exact hmark
  · exact hmark

theorem meetsCased_cons (c : Char) (rest : List Char) :
    meetsCased (c :: rest) =
      if inRanges caseIgnorableRanges c then meetsCased rest else inRanges casedRanges c := by
  rw [meetsCased, List.dropWhile_cons]
  cases inRanges caseIgnorableRanges c <;> rfl

theorem meetsCased_map_toLower (chars : List Char) :
    meetsCased (chars.map Char.toLower) = meetsCased chars := by
  induction chars with
  | nil => rfl
  | cons c rest ih =>
      rw [List.map_cons, meetsCased_cons, meetsCased_cons, ih,
        apply_toLower (f := inRanges caseIgnorableRanges) (by decide +kernel),
        apply_toLower (f := inRanges casedRanges) (by decide +kernel)]

theorem lowerFrom_map_toLower (before chars : List Char) :
    lowerFrom (before.map Char.toLower) (chars.map Char.toLower) = lowerFrom before chars := by
  induction chars generalizing before with
  | nil => rfl
  | cons c rest ih =>
      have hrest := ih (c :: before)
      rw [List.map_cons] at hrest
      have hsigma : c.toLower = 'Σ' ↔ c = 'Σ' :=
        decide_eq_decide.mp (apply_toLower (f := fun c => decide (c = 'Σ')) (by decide +kernel) c)
      rw [List.map_cons, lowerFrom, lowerFrom, hrest, meetsCased_map_toLower,
        meetsCased_map_toLower, apply_toLower (f := lowerChar) (by decide +kernel)]
      simp only [hsigma]

/-- The lower case of a text does not depend on the case of its ASCII letters. -/
theorem lower_foldCase (text : String) : lower (foldCase text) = lower text := by
  apply String.toList_inj.mp
  rw [toList_lower, toList_lower, foldCase, String.toList_map]
  exact lowerFrom_map_toLower [] text.toList

end Text

namespace Token

/-! ## Words in another case -/

/-- The texts of two commands that differ in letter case alone. -/
def SameCommand (text text' : String) : Prop :=
  Text.foldCase text = Text.foldCase text' ∧ text.front? = some '@' ∧ text'.front? = some '@'

theorem front?_push_eq (text : String) (c : Char) :
    (text.push c).front? = text.front?.or (some c) := by
  rw [String.front?_eq, String.front?_eq, String.toList_push, List.head?_append]
  rfl

namespace SameCommand

variable {text text' : String}

theorem back?_eq (hsame : SameCommand text text') :
    (text.back? == some '(') = (text'.back? == some '(') := by
  have hlast (text : String) :
      (text.back? == some '(') = ((Text.foldCase text).toList.getLast? == some '(') := by
    rw [String.back?_eq, Text.foldCase, String.toList_map, List.getLast?_map]
    have hparenthesis := Text.apply_toLower (f := fun c => some c == some '(') (by decide +kernel)
    cases text.toList.getLast? with
    | none => rfl
    | some c => exact (hparenthesis c).symm
  rw [hlast, hsame.1, hlast]

theorem ofWord_eq (hsame : SameCommand text text') (start : Nat) :
    ofWord start text = ofWord start text' := by
  obtain ⟨hfold, hat, hat'⟩ := id hsame
  have hlower : Text.lower text = Text.lower text' := by
    rw [← Text.lower_foldCase, hfold, Text.lower_foldCase]
  have hsize : text.utf8ByteSize = text'.utf8ByteSize := by
    rw [← Text.utf8ByteSize_foldCase, hfold, Text.utf8ByteSize_foldCase]
  rw [ofWord, ofWord, hat, hat', hsame.back?_eq, hlower, hsize]
  rfl

theorem push (hsame : SameCommand text text') {c d : Char} (hcase : c.toLower = d.toLower) :
    SameCommand (text.push c) (text'.push d) := by
  obtain ⟨hfold, hat, hat'⟩ := hsame
  refine ⟨?_, ?_, ?_⟩
  · apply String.toList_inj.mp
    rw [Text.foldCase, Text.foldCase, String.toList_map, String.toList_map, String.toList_push,
      String.toList_push, List.map_append, List.map_append, ← String.toList_map,
      ← String.toList_map, List.map_singleton, List.map_singleton, hcase, ← Text.foldCase,
      ← Text.foldCase, hfold]
  · rw [front?_push_eq, hat]
    rfl
  · rw [front?_push_eq, hat']
    rfl

end SameCommand

/-! ## The token that a character belongs to -/

/-- A character belongs to one token only. -/
theorem eq_of_covers {script : String} {token other : Token} (hmem : token ∈ scan script)
    (hother : other ∈ scan script) {offset : Nat} (hcovers : token.span.Covers offset)
    (hcovers' : other.span.Covers offset) : token = other := by
  have hapart : (scan script).Pairwise fun first second =>
      ¬(first.span.Covers offset ∧ second.span.Covers offset) := by
    refine (Scanner.scan_pieces script).pairwise.imp ?_
    rintro first second hstop ⟨⟨-, hbefore⟩, ⟨hafter, -⟩⟩
    omega
  by_contra hne
  have : Std.Symm fun first second : Token =>
      ¬(first.span.Covers offset ∧ second.span.Covers offset) :=
    ⟨fun _ _ hnot hboth => hnot hboth.symm⟩
  exact hapart.forall hmem hother hne ⟨hcovers, hcovers'⟩

namespace Scanner

/-- A literal takes what follows into itself, up to the quote that closes it. -/
theorem exists_tokens_read_quote (offset start : Nat) (text : String) (escaped : Bool)
    (done : List Token) (chars : List Char) :
    ∃ taken others, (read ⟨offset, .quote start text escaped, done⟩ chars).tokens =
      done.reverse ++ ofQuote start (text ++ taken) :: others := by
  induction chars generalizing offset text escaped with
  | nil => exact ⟨"", [], by simp [tokens, Pending.finish]⟩
  | cons c rest ih =>
      cases hnext : escapeState escaped [c] with
      | some after =>
          obtain ⟨taken, others, htokens⟩ := ih (offset + c.utf8Size) (text.push c) after
          refine ⟨String.singleton c ++ taken, others, ?_⟩
          rw [read_cons, step_quoted hnext, htokens, ← String.append_singleton, String.append_assoc]
      | none =>
          obtain ⟨rfl, rfl⟩ := eq_quote_of_escapeState hnext
          refine ⟨"\"", (scan (String.ofList rest)).map (Token.shift (offset + 1)), ?_⟩
          rw [read_cons, step_closingQuote, tokens_read_nothing, List.reverse_cons,
            List.append_assoc]
          rfl

/-- A character that shapes no token is taken into the pending one or starts a word. -/
theorem exists_pending_step {offset : Nat} {pending : Pending} {done : List Token} {text : String}
    (hread : HasRead ⟨offset, pending, done⟩ text) {c : Char} (hmark : Text.isMark c = false) :
    ∃ start part, start ≤ offset ∧ offset < start + part.utf8ByteSize ∧
      ((step ⟨offset, pending, done⟩ c).pending = .word start part ∨
        ∃ escaped, (step ⟨offset, pending, done⟩ c).pending = .quote start part escaped) := by
  obtain ⟨rfl, hends, -⟩ := hread
  have hsize := Char.utf8Size_pos c
  have hgrown {start : Nat} {part : String}
      (hends : ∃ before : String, text = before ++ part ∧ before.utf8ByteSize = start) :
      start ≤ text.utf8ByteSize ∧ text.utf8ByteSize < start + (part.push c).utf8ByteSize := by
    obtain ⟨before, rfl, rfl⟩ := hends
    rw [String.utf8ByteSize_append, String.utf8ByteSize_push]
    omega
  cases pending with
  | nothing =>
      have hpart : c.toString.utf8ByteSize = c.utf8Size := String.utf8ByteSize_singleton
      refine ⟨text.utf8ByteSize, c.toString, Nat.le_refl _, by omega, .inl ?_⟩
      rw [step_startsWord (startsWord_of_not_isMark hmark)]
  | word start part =>
      refine ⟨start, part.push c, (hgrown hends).1, (hgrown hends).2, .inl ?_⟩
      rw [step_continuesWord (continuesWord_of_not_isMark hmark)]
  | quote start part escaped =>
      cases hnext : escapeState escaped [c] with
      | some after =>
          refine ⟨start, part.push c, (hgrown hends).1, (hgrown hends).2, .inr ⟨after, ?_⟩⟩
          rw [step_quoted hnext]
      | none =>
          obtain ⟨-, rfl⟩ := eq_quote_of_escapeState hnext
          exact absurd hmark (by decide)

/-- The token that is pending after some characters becomes a token of the script. -/
theorem exists_mem_scan_of_pending {script : String} {chars after : List Char}
    (hscript : script.toList = chars ++ after) :
    (∀ {start part}, (read {} chars).pending = .word start part →
      ∃ taken, ofWord start (part ++ taken) ∈ scan script) ∧
    ∀ {start part escaped}, (read {} chars).pending = .quote start part escaped →
      ∃ taken, ofQuote start (part ++ taken) ∈ scan script := by
  have hscan : scan script = ((read {} chars).read after).tokens := by
    rw [scan_eq, atEnd, hscript, read_append]
  rw [hscan]
  generalize read {} chars = scanner
  obtain ⟨offset, pending, done⟩ := scanner
  refine ⟨?_, ?_⟩
  · rintro start part ⟨⟩
    obtain ⟨taken, others, htokens, -⟩ := exists_tokens_read_word offset start part done after
    exact ⟨taken, by rw [htokens]; simp⟩
  · rintro start part escaped ⟨⟩
    obtain ⟨taken, others, htokens⟩ :=
      exists_tokens_read_quote offset start part escaped done after
    exact ⟨taken, by rw [htokens]; simp⟩

end Scanner

theorem hasAt_eq_false_of_quoted {script : String} {token : Token} (hmem : token ∈ scan script)
    (hkind : token.kind = .quoted) : token.hasAt = false := by
  obtain ⟨start, closed, inside, -, rfl⟩ := (Scanner.scan_pieces script).exists_encloses hmem hkind
  simp [hasAt, ofQuote, literalText, String.front?_eq]

/-- A word that starts with `@` does so from its first character on. -/
theorem front?_of_hasAt_ofWord {start : Nat} {part taken : String} (hne : part ≠ "")
    (hat : (ofWord start (part ++ taken)).hasAt = true) : part.front? = some '@' := by
  obtain ⟨c, rest, hchars⟩ := List.exists_cons_of_ne_nil (mt String.toList_eq_nil_iff.mp hne)
  have hpart : part ++ taken = String.ofList (c :: (rest ++ taken.toList)) := by
    apply String.toList_inj.mp
    rw [String.toList_append, hchars, String.toList_ofList, List.cons_append]
  rw [hpart, hasAt_ofWord] at hat
  rw [String.front?_eq, hchars, hat]
  rfl

/-- A letter that belongs to a command is read as a part of it. -/
theorem Scanner.exists_command_of_covers {script : String} {before after : List Char} {c : Char}
    (hscript : script.toList = before ++ c :: after) (hmark : Text.isMark c = false)
    {token : Token} (hmem : token ∈ scan script) (hat : token.hasAt = true)
    (hcovers : token.span.Covers (Text.byteLength before)) :
    ∃ start part, ((read {} before).step c).pending = .word start part ∧
      part.front? = some '@' := by
  have hempty : HasRead {} "" := ⟨rfl, trivial, nofun⟩
  have hread := hempty.read before
  have hoffset := offset_read {} before
  have hafter : script.toList = (before ++ [c]) ++ after := by
    rw [hscript, List.append_assoc]
    rfl
  have hbecomes := exists_mem_scan_of_pending hafter
  rw [read_append, read_cons, read_nil] at hbecomes
  generalize read {} before = scanner at hread hoffset hbecomes ⊢
  obtain ⟨offset, pending, done⟩ := scanner
  obtain ⟨start, part, hle, hlt, hpending⟩ := exists_pending_step hread hmark
  dsimp only at hoffset
  rw [hoffset, Nat.zero_add] at hle hlt
  -- The token that is read from the pending one covers the letter as well.
  have hsame {other : Token} (hother : other ∈ scan script) {taken : String}
      (hspan : other.span = ⟨start, (part ++ taken).utf8ByteSize⟩) : token = other := by
    refine eq_of_covers hmem hother hcovers ?_
    rw [hspan, String.utf8ByteSize_append]
    exact ⟨hle, hlt.trans_le (Nat.add_le_add_left (Nat.le_add_right _ _) start)⟩
  rcases hpending with hword | ⟨escaped, hquote⟩
  · obtain ⟨taken, hother⟩ := hbecomes.1 hword
    obtain rfl := hsame hother (span_ofWord start _)
    refine ⟨start, part, hword, front?_of_hasAt_ofWord ?_ hat⟩
    rintro rfl
    exact absurd hlt (Nat.not_lt.mpr hle)
  · obtain ⟨taken, hother⟩ := hbecomes.2 hquote
    obtain rfl := hsame hother rfl
    rw [hasAt_eq_false_of_quoted hmem rfl] at hat
    cases hat

/-! ## Scanners in step -/

/-- Pending tokens that are the same, or commands that differ in letter case alone. -/
inductive Pending.Alike : Pending → Pending → Prop
  | same (pending : Pending) : Alike pending pending
  | command (start : Nat) {text text' : String} (hsame : SameCommand text text') :
      Alike (.word start text) (.word start text')

theorem Pending.Alike.finish_eq {pending pending' : Pending} (halike : Alike pending pending') :
    pending.finish = pending'.finish := by
  cases halike with
  | same => rfl
  | command start hsame => exact congrArg (fun token => [token]) (hsame.ofWord_eq start)

namespace Scanner

/-- Scanners that have read the same up to the letter case of a pending command. -/
structure Agrees (scanner scanner' : Scanner) : Prop where
  offset : scanner.offset = scanner'.offset
  pending : scanner.pending.Alike scanner'.pending
  done : scanner.done = scanner'.done

namespace Agrees

variable {scanner scanner' : Scanner}

theorem tokens_eq (hagrees : Agrees scanner scanner') : scanner.tokens = scanner'.tokens := by
  rw [tokens, tokens, hagrees.pending.finish_eq, hagrees.done]

/-- Both read the same character. -/
theorem step (hagrees : Agrees scanner scanner') (c : Char) :
    Agrees (scanner.step c) (scanner'.step c) := by
  obtain ⟨offset, pending, done⟩ := scanner
  obtain ⟨offset', pending', done'⟩ := scanner'
  obtain ⟨rfl, halike, rfl⟩ := hagrees
  cases halike with
  | same => exact ⟨rfl, .same _, rfl⟩
  | @command start text text' hsame =>
      have hpushed : SameCommand (text.push c) (text'.push c) := hsame.push rfl
      by_cases hopen : c = '('
      · subst hopen
        rw [step_parenthesis, step_parenthesis, hpushed.ofWord_eq]
        exact ⟨rfl, .same _, rfl⟩
      by_cases hends : endsWord c = true
      · rw [step_endsWord hends, step_endsWord hends, hsame.ofWord_eq]
        exact ⟨rfl, .same _, rfl⟩
      · have hcontinues : continuesWord c = true := by simp [continuesWord, hopen, hends]
        rw [step_continuesWord hcontinues, step_continuesWord hcontinues]
        exact ⟨rfl, .command start hpushed, rfl⟩

/-- One reads a letter as a part of a command, and the other reads it in another case. -/
theorem step_recased (hagrees : Agrees scanner scanner') {c d : Char}
    (hcase : c.toLower = d.toLower) (hne : c ≠ d) {start : Nat} {text : String}
    (hpending : (scanner.step c).pending = .word start text) (hat : text.front? = some '@') :
    Agrees (scanner.step c) (scanner'.step d) := by
  have hmark := Text.not_isMark_of_toLower hcase hne
  have hcontinues := continuesWord_of_not_isMark hmark
  have hcontinues' := continuesWord_of_not_isMark (Text.not_isMark_of_toLower hcase.symm hne.symm)
  have hsize : c.utf8Size = d.utf8Size := by
    rw [← Text.utf8Size_toLower, hcase, Text.utf8Size_toLower]
  obtain ⟨offset, pending, done⟩ := scanner
  obtain ⟨offset', pending', done'⟩ := scanner'
  obtain ⟨rfl, halike, rfl⟩ := hagrees
  have hword {start : Nat} {text text' : String} (hsame : SameCommand text text') :
      Agrees (Scanner.step ⟨offset, .word start text, done⟩ c)
        (Scanner.step ⟨offset, .word start text', done⟩ d) := by
    rw [step_continuesWord hcontinues, step_continuesWord hcontinues', hsize]
    exact ⟨rfl, .command start (hsame.push hcase), rfl⟩
  cases halike with
  | command start hsame => exact hword hsame
  | same =>
      cases pending with
      | nothing =>
          rw [step_startsWord (startsWord_of_not_isMark hmark)] at hpending
          cases hpending
          have hfront := front?_push_eq "" c
          cases hfront.symm.trans hat
          cases hmark
      | word start' text' =>
          rw [step_continuesWord hcontinues] at hpending
          cases hpending
          have hfront : text'.front? = some '@' := by
            rw [front?_push_eq] at hat
            cases hfirst : text'.front? with
            | none =>
                rw [hfirst] at hat
                cases hat
                cases hmark
            | some first => rwa [hfirst] at hat
          exact hword ⟨rfl, hfront, hfront⟩
      | quote start' text' escaped =>
          cases hnext : escapeState escaped [c] with
          | some after =>
              rw [step_quoted hnext] at hpending
              cases hpending
          | none =>
              obtain ⟨-, rfl⟩ := eq_quote_of_escapeState hnext
              cases hmark

end Agrees

end Scanner

/-! ## Scripts in another case -/

/-- The characters at a place of two scripts differ at most in ASCII letter case, and only if the
place belongs to a token of the first script that starts with `@`. -/
def RecasedAt (first second : String) (index : Nat) : Prop :=
  ∀ (hfirst : index < first.toList.length) (hsecond : index < second.toList.length),
    first.toList[index] ≠ second.toList[index] →
      first.toList[index].toLower = second.toList[index].toLower ∧
        ∃ token ∈ scan first, token.hasAt = true ∧
          token.span.Covers (Text.byteLength (first.toList.take index))

instance (first second : String) (index : Nat) : Decidable (RecasedAt first second index) :=
  inferInstanceAs (Decidable
    (∀ (_ : index < first.toList.length) (_ : index < second.toList.length), _ → _))

/-- Scripts of equal length that differ at most in the letter case of the tokens of the first one
that start with `@`. -/
structure Recased (first second : String) : Prop where
  length_eq : first.length = second.length
  recasedAt : ∀ index < first.length, RecasedAt first second index

instance (first second : String) : Decidable (Recased first second) :=
  decidable_of_iff
    (first.length = second.length ∧ ∀ index < first.length, RecasedAt first second index)
    ⟨fun hboth => ⟨hboth.1, hboth.2⟩, fun hrecased => ⟨hrecased.1, hrecased.2⟩⟩

namespace Recased

variable {first second : String}

/-- The scanners agree after any number of characters. -/
theorem agrees (hrecased : Recased first second) {count : Nat} (hcount : count ≤ first.length) :
    Scanner.Agrees (Scanner.read {} (first.toList.take count))
      (Scanner.read {} (second.toList.take count)) := by
  induction count with
  | zero => exact ⟨rfl, .same _, rfl⟩
  | succ count ih =>
      have hlength : count < first.toList.length := by rwa [String.length_toList]
      have hlength' : count < second.toList.length := by
        rwa [String.length_toList, ← hrecased.length_eq]
      have hagrees := ih (Nat.le_of_succ_le hcount)
      rw [List.take_succ_eq_append_getElem hlength, List.take_succ_eq_append_getElem hlength',
        Scanner.read_append, Scanner.read_append]
      by_cases hne : first.toList[count] = second.toList[count]
      · rw [hne]
        exact hagrees.step _
      · obtain ⟨hcase, token, hmem, hat, hcovers⟩ :=
          hrecased.recasedAt count hcount hlength hlength' hne
        have hscript : first.toList =
            first.toList.take count ++ first.toList[count] :: first.toList.drop (count + 1) := by
          rw [← List.drop_eq_getElem_cons hlength, List.take_append_drop]
        have hmark := Text.not_isMark_of_toLower hcase hne
        obtain ⟨start, part, hpending, hfront⟩ :=
          Scanner.exists_command_of_covers hscript hmark hmem hat hcovers
        exact hagrees.step_recased hcase hne hpending hfront

theorem scan_eq (hrecased : Recased first second) : scan first = scan second := by
  have hagrees := hrecased.agrees (Nat.le_refl first.length)
  have hlength : second.toList.take first.length = second.toList := by
    rw [hrecased.length_eq, ← String.length_toList, List.take_length]
  rw [← String.length_toList, List.take_length, String.length_toList, hlength] at hagrees
  exact hagrees.tokens_eq

end Recased

end Token

/-! ## What such scripts do -/

variable {S : Type} [Store S] {first second : String}

theorem Value.isNull_of_scan_eq (hscan : Token.scan first = Token.scan second) :
    isNull first = isNull second := by
  rw [Bool.eq_iff_iff, Token.isNull_iff_looks, Token.isNull_iff_looks, hscan]

theorem Exec.nested_of_scan_eq {S : Type} (hscan : Token.scan first = Token.scan second)
    (run : Runner S) (frame : Frame S) :
    (∃ after, nested run first frame = .ok () after ∧ nested run second frame = .ok () after) ∨
      ∃ (stop : Stop RunError) (after : Frame S),
        nested run first frame = .error (stop.map (·.inScript first)) after ∧
        nested run second frame = .error (stop.map (·.inScript second)) after := by
  cases hlimit : frame.exceededLimit? with
  | some limit =>
      refine .inr ⟨.failed ⟨.tooDeep limit, none, []⟩, frame, ?_, ?_⟩
      · exact nested_of_exceeded run hlimit
      · exact nested_of_exceeded run hlimit
  | none =>
      cases hsecond : sequenceAll run (Token.scan second) frame.enter with
      | ok value after =>
          have hfirst := hscan ▸ hsecond
          rw [nested_of_ok hlimit hfirst, nested_of_ok hlimit hsecond]
          cases after.leave? with
          | some outer => exact .inl ⟨outer, rfl, rfl⟩
          | none => exact .inr ⟨.defect, after, rfl, rfl⟩
      | error stop after =>
          have hfirst := hscan ▸ hsecond
          rw [nested_of_error hlimit hfirst, nested_of_error hlimit hsecond]
          cases after.leave? with
          | some outer => exact .inr ⟨stop, outer, rfl, rfl⟩
          | none => exact .inr ⟨.defect, after, rfl, rfl⟩

/-- Scripts with the same tokens leave the same engine and the same output. When they fail, it is
for the same cause at the same place, and each script is recorded in its own failure. -/
theorem Engine.runWithin_of_scan_eq (hscan : Token.scan first = Token.scan second) (fuel : Nat)
    (engine : Engine S) :
    ∃ (after : Engine S) (output : Option String) (result : Except (Stop RunError) Unit),
      engine.runWithin fuel first =
        ⟨after, output, result.mapError fun stop => stop.map (·.inScript first)⟩ ∧
      engine.runWithin fuel second =
        ⟨after, output, result.mapError fun stop => stop.map (·.inScript second)⟩ := by
  rw [runWithin, runWithin, Value.isNull_of_scan_eq hscan]
  split
  · exact ⟨engine, none, .ok (), rfl, rfl⟩
  · rcases Exec.nested_of_scan_eq hscan (Exec.command fuel) ⟨engine, ""⟩ with
      ⟨after, hfirst, hsecond⟩ | ⟨stop, after, hfirst, hsecond⟩
    · rw [hfirst, hsecond]
      exact ⟨after.engine, some after.out, .ok (), rfl, rfl⟩
    · rw [hfirst, hsecond]
      exact ⟨after.engine, some after.out, .error stop, rfl, rfl⟩

/-- A check finds the same in scripts with the same tokens, each time in its own script. -/
theorem Check.script_of_scan_eq (hscan : Token.scan first = Token.scan second) (store : S) :
    script store second =
      (script store first).map fun finding => { finding with script := some second } := by
  have hblank : Text.isBlank first = Text.isBlank second := by
    rw [Bool.eq_iff_iff, Token.isBlank_iff_looks, Token.isBlank_iff_looks, hscan]
  rw [script, script, hblank, hscan]
  split
  · rfl
  · cases tokens store (Token.scan second) <;> rfl

end AtScript
