import AtScript.Proofs.Blank
import AtScript.Proofs.Joining
import AtScript.Value.Basic

/-! # Scripts with nothing to do

Whether a script is blank, and whether it is the null text, can be told from its tokens: a blank
script has none, and the null text is one word. So can whether a text is a script at all: its first
token starts with `@`.
-/

namespace AtScript

/-- No character of a text that spells the null text shapes tokens. -/
theorem Value.isMark_of_mem_null {word : String}
    (hnull : Text.sameIgnoringCase word null = true) {c : Char} (hmem : c ∈ word.toList) :
    Text.isMark c = false := by
  have hletters : (Text.foldCase null).toList.any Text.isMark = false := by decide +kernel
  rw [← Text.isMark_toLower, ← Bool.not_eq_true]
  exact List.any_eq_false.mp hletters _ (Text.toLower_mem_foldCase hnull hmem)

namespace Token

/-! ## Scripts without tokens -/

theorem Pieces.isBlankChar_of_nil {offset : Nat} {chars : List Char}
    (hpieces : Pieces offset chars []) : ∀ c ∈ chars, Text.isBlankChar c = true := by
  generalize htokens : ([] : List Token) = tokens at hpieces
  induction hpieces with
  | nil => simp
  | blank hblank hrest ih => exact List.forall_mem_cons.mpr ⟨hblank, ih htokens⟩
  | lexeme hlexeme hrest ih => cases htokens
  | unclosed hstate => cases htokens

theorem isBlank_iff_looks (script : String) :
    Text.isBlank script = true ↔ (scan script).map look = [] := by
  rw [Text.isBlank_eq, List.all_eq_true, List.map_eq_nil_iff]
  constructor
  · intro hblank
    have hread : Scanner.read ⟨0, .nothing, []⟩ script.toList = _ := Scanner.read_blank hblank
    exact congrArg Scanner.tokens hread
  · intro hscan
    have hpieces := Scanner.scan_pieces script
    rw [hscan] at hpieces
    exact hpieces.isBlankChar_of_nil

/-! ## The null text -/

/-- The only piece of a script with one word, and the white space around it. -/
theorem Pieces.exists_of_word {offset : Nat} {chars : List Char} {token : Token}
    (hpieces : Pieces offset chars [token]) (hkind : token.kind = .word) :
    ∃ start lead piece trail, chars = lead ++ piece ++ trail ∧ Lexeme start piece token ∧
      (∀ c ∈ lead, Text.isBlankChar c = true) ∧ ∀ c ∈ trail, Text.isBlankChar c = true := by
  generalize htokens : [token] = tokens at hpieces
  induction hpieces with
  | nil => cases htokens
  | @blank offset c chars tokens hblank hrest ih =>
      obtain ⟨start, lead, piece, trail, rfl, hlexeme, hlead, htrail⟩ := ih htokens
      exact ⟨start, c :: lead, piece, trail, rfl, hlexeme,
        List.forall_mem_cons.mpr ⟨hblank, hlead⟩, htrail⟩
  | @lexeme offset piece chars token tokens hlexeme hrest ih =>
      cases htokens
      exact ⟨offset, [], piece, chars, rfl, hlexeme, by simp, hrest.isBlankChar_of_nil⟩
  | unclosed hstate =>
      cases htokens
      cases hkind

theorem text_eq_or_mem_of_ofWord (start : Nat) (text : String) :
    (ofWord start text).text = text ∨ '@' ∈ (ofWord start text).text.toList := by
  rw [text_ofWord]
  split
  next hfront =>
    rw [String.front?_eq] at hfront
    obtain ⟨rest, hchars⟩ := List.head?_eq_some_iff.mp hfront
    right
    rw [Text.toList_lower, hchars, Text.lowerFrom]
    simp [Text.lowerChar]
  next => exact .inl rfl

/-- A word is its own text, unless it is a command. -/
theorem Lexeme.text_of_word {start : Nat} {piece : List Char} {token : Token}
    (hlexeme : Lexeme start piece token) (hkind : token.kind = .word) :
    token.text = String.ofList piece ∨ '@' ∈ token.text.toList := by
  cases hlexeme with
  | comma | close | quoted => cases hkind
  | word hword => exact text_eq_or_mem_of_ofWord start _
  | opening hword => exact text_eq_or_mem_of_ofWord start _

theorem trim_eq_of_looks {script word : String}
    (hnull : Text.sameIgnoringCase word Value.null = true)
    (hlooks : (scan script).map look = [(.word, word)]) : Text.trim script = word := by
  obtain ⟨token, hscan, hlook⟩ := List.map_eq_singleton_iff.mp hlooks
  obtain ⟨hkind, rfl⟩ := Prod.mk.inj hlook
  have hpieces := Scanner.scan_pieces script
  rw [hscan] at hpieces
  obtain ⟨start, lead, piece, trail, hchars, hlexeme, hlead, htrail⟩ :=
    hpieces.exists_of_word hkind
  rcases hlexeme.text_of_word hkind with htext | hat
  · have hpiece : token.text.toList = piece := by rw [htext, String.toList_ofList]
    apply String.toList_inj.mp
    rw [Text.toList_trim, hchars, hpiece]
    refine Text.trimChars_append hlead htrail ?_ fun c hmem => ?_
    · rintro rfl
      rw [htext] at hnull
      exact absurd hnull (by decide +kernel)
    · exact Text.isBlankChar_of_not_isMark (Value.isMark_of_mem_null hnull (hpiece ▸ hmem))
  · exact absurd (Value.isMark_of_mem_null hnull hat) (by decide)

theorem looks_of_trim {script : String}
    (hnull : Text.sameIgnoringCase (Text.trim script) Value.null = true) :
    (scan script).map look = [(.word, Text.trim script)] := by
  have hmarks {c : Char} (hmem : c ∈ (Text.trim script).toList) : Text.isMark c = false :=
    Value.isMark_of_mem_null hnull hmem
  obtain ⟨lead, trail, hchars, hlead, htrail⟩ := Text.exists_trimChars script.toList
  rw [← Text.toList_trim] at hchars
  have hword : IsWord (Text.trim script).toList := by
    cases hcore : (Text.trim script).toList with
    | nil =>
        rw [String.toList_eq_nil_iff.mp hcore] at hnull
        exact absurd hnull (by decide +kernel)
    | cons c rest =>
        rw [hcore] at hmarks
        refine .intro (startsWord_of_not_isMark (hmarks List.mem_cons_self)) fun d hmem => ?_
        exact continuesWord_of_not_isMark (hmarks (List.mem_cons_of_mem c hmem))
  have hscan : scan script = [ofWord (Text.byteLength lead) (Text.trim script)] := by
    have hread : ({} : Scanner).read (lead ++ (Text.trim script).toList) =
        ⟨Text.byteLength lead + Text.byteLength (Text.trim script).toList,
          .word (Text.byteLength lead) (Text.trim script), []⟩ := by
      rw [Scanner.read_append, Scanner.read_blank hlead, Scanner.read_word hword,
        String.ofList_toList, Nat.zero_add]
    rw [Scanner.scan_eq, Scanner.atEnd, hchars, Scanner.read_append, hread,
      Scanner.tokens_read_blank rfl htrail]
    rfl
  have hfront : (Text.trim script).front? ≠ some '@' := by
    intro hfront
    rw [String.front?_eq] at hfront
    exact absurd (hmarks (List.mem_of_mem_head? hfront)) (by decide)
  rw [hscan]
  simp [ofWord, look, hfront]

/-- A script is null when it has no tokens or is one word that spells the null text. -/
theorem isNull_iff_looks (script : String) :
    Value.isNull script = true ↔
      (scan script).map look = [] ∨
        ∃ word, Text.sameIgnoringCase word Value.null = true ∧
          (scan script).map look = [(.word, word)] := by
  rw [Value.isNull, Bool.or_eq_true, String.isEmpty_iff, ← Text.isBlank_iff_trim, isBlank_iff_looks]
  refine or_congr_right ⟨fun hnull => ⟨_, hnull, looks_of_trim hnull⟩, ?_⟩
  rintro ⟨word, hnull, hlooks⟩
  rw [trim_eq_of_looks hnull hlooks]
  exact hnull

/-! ## Texts that are scripts -/

theorem hasAt_ofWord (start : Nat) (c : Char) (rest : List Char) :
    (ofWord start (String.ofList (c :: rest))).hasAt = true ↔ c = '@' := by
  by_cases hat : c = '@'
  · subst hat
    simp [hasAt, text_ofWord, String.front?_eq, Text.toList_lower, Text.lowerFrom, Text.lowerChar]
  · simp [hasAt, text_ofWord, String.front?_eq, hat]

/-- A piece starts with a character that is not white space, and with `@` if its token does. -/
theorem Lexeme.exists_head {start : Nat} {piece : List Char} {token : Token}
    (hlexeme : Lexeme start piece token) :
    ∃ c rest, piece = c :: rest ∧ Text.isBlankChar c = false ∧ (token.hasAt = true ↔ c = '@') := by
  cases hlexeme with
  | comma => exact ⟨',', [], rfl, by decide, by simp [hasAt, String.front?_eq]⟩
  | close => exact ⟨')', [], rfl, by decide, by simp [hasAt, String.front?_eq]⟩
  | quoted hstate => exact ⟨'"', _, rfl, by decide, by simp [hasAt, ofQuote, String.front?_eq]⟩
  | word hword =>
      obtain @⟨c, rest, hfirst, hrest⟩ := hword
      exact ⟨c, rest, rfl, isBlankChar_of_startsWord hfirst, hasAt_ofWord start c rest⟩
  | opening hword =>
      obtain @⟨c, rest, hfirst, hrest⟩ := hword
      exact ⟨c, _, rfl, isBlankChar_of_startsWord hfirst, hasAt_ofWord start c _⟩

theorem Pieces.head?_dropBlank_iff {offset : Nat} {chars : List Char} {tokens : List Token}
    (hpieces : Pieces offset chars tokens) :
    (Text.dropBlank chars).head? = some '@' ↔
      ∃ token rest, tokens = token :: rest ∧ token.hasAt = true := by
  induction hpieces with
  | nil => simp [Text.dropBlank]
  | blank hblank hrest ih =>
      rw [Text.dropBlank, List.dropWhile_cons_of_pos hblank]
      exact ih
  | lexeme hlexeme hrest ih =>
      obtain ⟨c, more, rfl, hblank, hat⟩ := hlexeme.exists_head
      have hkept : ¬Text.isBlankChar c = true := by simp [hblank]
      rw [List.cons_append, Text.dropBlank, List.dropWhile_cons_of_neg hkept]
      simp [hat]
  | unclosed hstate =>
      have hkept : ¬Text.isBlankChar '"' = true := by decide
      rw [Text.dropBlank, List.dropWhile_cons_of_neg hkept]
      simp [hasAt, ofQuote, String.front?_eq]

/-- A text is a script when its first token starts with `@`. -/
theorem isScript_iff_scan (text : String) :
    Value.isScript text = true ↔ ∃ token rest, scan text = token :: rest ∧ token.hasAt = true := by
  rw [Value.isScript_eq, beq_iff_eq]
  exact (Scanner.scan_pieces text).head?_dropBlank_iff

end Token

end AtScript
