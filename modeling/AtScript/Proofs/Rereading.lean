import AtScript.Proofs.Joining

/-! # Tokens that are read again

The text of a token is read as that token again, also when the text was put in lower case. A word is
open after that: it goes on when more text follows at once, unless a parenthesis has closed it.
-/

namespace AtScript.Token

/-- Whether a word goes on when more text follows at once. A parenthesis closes the word that it
ends, unless it is the whole word. -/
def isOpen (token : Token) : Bool :=
  token.kind == .word && (token.text == "(" || token.text.back? != some '(')

/-- Whether a token is taken into an open word right before it. -/
def sticks (token : Token) : Bool :=
  token.kind == .quoted || (token.kind == .word && !token.hasAt)

/-! ## The texts of tokens -/

/-- The texts that tokens of each kind can have, a literal without its closing quote apart. -/
inductive Spelled : Token → Prop
  | comma {span : Span} : Spelled ⟨.comma, ",", span⟩
  | close {span : Span} : Spelled ⟨.close, ")", span⟩
  | quoted {chars : List Char} {span : Span} (hstate : escapeState false chars = some false) :
      Spelled ⟨.quoted, String.ofList ('"' :: (chars ++ ['"'])), span⟩
  | command {rest : List Char} {span : Span} (hrest : ∀ d ∈ rest, continuesWord d = true)
      (hlower : Text.lower (String.ofList ('@' :: rest)) = String.ofList ('@' :: rest)) :
      Spelled ⟨.word, String.ofList ('@' :: rest), span⟩
  | call {rest : List Char} {span : Span} (hrest : ∀ d ∈ rest, continuesWord d = true)
      (hlower : Text.lower (String.ofList ('@' :: (rest ++ ['(']))) =
        String.ofList ('@' :: (rest ++ ['(']))) :
      Spelled ⟨.call, String.ofList ('@' :: (rest ++ ['('])), span⟩
  | plain {c : Char} {rest : List Char} {span : Span} (hat : c ≠ '@')
      (hfirst : startsWord c = true) (hrest : ∀ d ∈ rest, continuesWord d = true) :
      Spelled ⟨.word, String.ofList (c :: rest), span⟩
  | opening {c : Char} {rest : List Char} {span : Span} (hat : c ≠ '@')
      (hfirst : startsWord c = true) (hrest : ∀ d ∈ rest, continuesWord d = true) :
      Spelled ⟨.word, String.ofList (c :: (rest ++ ['('])), span⟩

theorem getLast?_ne_of_continuesWord {rest : List Char}
    (hrest : ∀ d ∈ rest, continuesWord d = true) : rest.getLast? ≠ some '(' := by
  intro hlast
  exact absurd (hrest '(' (List.mem_of_getLast? hlast)) (by decide)

theorem getLast?_cons_ne {c : Char} {rest : List Char} (hne : c ≠ '(' ∨ rest ≠ [])
    (hrest : ∀ d ∈ rest, continuesWord d = true) : (c :: rest).getLast? ≠ some '(' := by
  cases rest with
  | nil => simpa using hne
  | cons d rest =>
      rw [List.getLast?_cons_cons]
      exact getLast?_ne_of_continuesWord hrest

/-- A command stays a command in lower case, up to a parenthesis at its end. -/
theorem exists_lower_command {rest tail : List Char} (hrest : ∀ d ∈ rest, continuesWord d = true)
    (htail : ∀ c ∈ tail, Text.IsLower c) :
    ∃ lowered, Text.lower (String.ofList ('@' :: (rest ++ tail))) =
        String.ofList ('@' :: (lowered ++ tail)) ∧ ∀ d ∈ lowered, continuesWord d = true := by
  obtain ⟨lowered, hlowered, hmem⟩ := Text.lowerFrom_append ['@'] rest tail
  refine ⟨lowered, ?_, ?_⟩
  · apply String.toList_inj.mp
    rw [Text.toList_lower, String.toList_ofList, String.toList_ofList, Text.lowerFrom, hlowered,
      Text.lowerFrom_eq_self htail]
    rfl
  · intro d hd
    rcases hmem d hd with hsame | hmark
    · exact hrest d hsame
    · exact continuesWord_of_not_isMark hmark

theorem look_ofWord_command (start : Nat) {rest : List Char}
    (hrest : ∀ d ∈ rest, continuesWord d = true) :
    (ofWord start (String.ofList ('@' :: rest))).look =
      (.word, Text.lower (String.ofList ('@' :: rest))) := by
  have hlast : ('@' :: rest).getLast? ≠ some '(' := getLast?_cons_ne (.inl (by decide)) hrest
  simp [ofWord, look, String.front?_eq, String.back?_eq, hlast]

theorem look_ofWord_call (start : Nat) (rest : List Char) :
    (ofWord start (String.ofList ('@' :: (rest ++ ['('])))).look =
      (.call, Text.lower (String.ofList ('@' :: (rest ++ ['('])))) := by
  simp [ofWord, look, String.front?_eq, String.back?_eq, List.getLast?_cons]

theorem look_ofWord_plain (start : Nat) {c : Char} (hat : c ≠ '@') (rest : List Char) :
    (ofWord start (String.ofList (c :: rest))).look = (.word, String.ofList (c :: rest)) := by
  simp [ofWord, look, String.front?_eq, hat]

theorem Spelled.of_look {token : Token} {kind : TokenKind} {text : String}
    (hlook : token.look = (kind, text)) (hspelled : ∀ span, Spelled ⟨kind, text, span⟩) :
    Spelled token := by
  cases hlook
  exact hspelled token.span

theorem Lexeme.spelled {start : Nat} {piece : List Char} {token : Token}
    (hlexeme : Lexeme start piece token) : Spelled token := by
  cases hlexeme with
  | comma => exact .comma
  | close => exact .close
  | quoted hstate => exact .quoted hstate
  | @word _ hword =>
      obtain @⟨c, rest, hfirst, hrest⟩ := hword
      by_cases hat : c = '@'
      · subst hat
        obtain ⟨lowered, hlower, hcontinues⟩ := exists_lower_command hrest (List.forall_mem_nil _)
        rw [List.append_nil, List.append_nil] at hlower
        apply Spelled.of_look (look_ofWord_command start hrest)
        intro span
        rw [hlower]
        exact .command hcontinues (by rw [← hlower, Text.lower_lower])
      · exact .of_look (look_ofWord_plain start hat rest) fun span => .plain hat hfirst hrest
  | @opening _ hword =>
      obtain @⟨c, rest, hfirst, hrest⟩ := hword
      by_cases hat : c = '@'
      · subst hat
        have hopen : ∀ c ∈ ['('], Text.IsLower c :=
          List.forall_mem_singleton.mpr (by decide +kernel)
        obtain ⟨lowered, hlower, hcontinues⟩ := exists_lower_command hrest hopen
        apply Spelled.of_look (look_ofWord_call start rest)
        intro span
        rw [hlower]
        exact .call hcontinues (by rw [← hlower, Text.lower_lower])
      · exact .of_look (look_ofWord_plain start hat _) fun span => .opening hat hfirst hrest

/-- Only the text of a literal can lack its end. -/
theorem Pieces.spelled {offset : Nat} {chars : List Char} {tokens : List Token} {token : Token}
    (hpieces : Pieces offset chars tokens) (hmem : token ∈ tokens) (hkind : token.kind ≠ .quoted) :
    Spelled token := by
  induction hpieces with
  | nil => cases hmem
  | blank hblank hrest ih => exact ih hmem
  | lexeme hlexeme hrest ih =>
      rcases List.mem_cons.mp hmem with rfl | hmem
      · exact hlexeme.spelled
      · exact ih hmem
  | unclosed hstate =>
      obtain rfl := List.mem_singleton.mp hmem
      cases hkind rfl

namespace Spelled

variable {token : Token}

theorem hasAt_of_call (hspelled : Spelled token) (hkind : token.kind = .call) :
    token.hasAt = true := by
  cases hspelled with
  | call hrest hlower => simp [hasAt, String.front?_eq]
  | _ => cases hkind

/-- A call ends in its parenthesis. -/
theorem opensGroup_of_call (hspelled : Spelled token) (hkind : token.kind = .call) :
    token.opensGroup = true := by
  cases hspelled with
  | call hrest hlower => simp [opensGroup, String.back?_eq, List.getLast?_cons]
  | _ => cases hkind

/-- A command that ends in a parenthesis is a call. -/
theorem opensGroup_of_command (hspelled : Spelled token) (hkind : token.kind = .word)
    (hat : token.hasAt = true) : token.opensGroup = false := by
  cases hspelled with
  | command hrest hlower =>
      have hlast := getLast?_cons_ne (c := '@') (.inl (by decide)) hrest
      simp [opensGroup, String.back?_eq, hlast]
  | plain hne | opening hne => simp [hasAt, String.front?_eq, hne] at hat
  | _ => cases hkind

end Spelled

/-- The commands of a script are spelled in full. -/
theorem spelled_of_mem_scan {script : String} {token : Token} (hmem : token ∈ scan script)
    (hkind : token.kind ≠ .quoted) : Spelled token :=
  (Scanner.scan_pieces script).spelled hmem hkind

/-! ## Reading a token again -/

/-- Whether the last token is a word that may go on. -/
def Scanner.inWord (scanner : Scanner) : Bool :=
  match scanner.pending with
  | .word .. => true
  | _ => false

theorem Scanner.exists_of_inWord {scanner : Scanner} (hword : scanner.inWord = true) :
    ∃ offset start text done, scanner = ⟨offset, .word start text, done⟩ := by
  obtain ⟨offset, pending, done⟩ := scanner
  cases pending with
  | nothing => cases hword
  | word start text => exact ⟨offset, start, text, done, rfl⟩
  | quote start text escaped => cases hword

theorem Scanner.pending_eq_nothing {scanner : Scanner} (hquote : scanner.inQuote = false)
    (hword : scanner.inWord = false) : scanner.pending = .nothing := by
  obtain ⟨offset, pending, done⟩ := scanner
  cases pending with
  | nothing => rfl
  | word start text => cases hword
  | quote start text escaped => cases hquote

theorem sticks_plain {c : Char} (hat : c ≠ '@') (rest : List Char) (span : Span) :
    sticks ⟨.word, String.ofList (c :: rest), span⟩ = true := by
  simp [sticks, hasAt, String.front?_eq, hat]

theorem endsWord_of_startsWord {c : Char} (hat : c ≠ '@') (hstart : startsWord c = true) :
    endsWord c = false := by
  simp only [startsWord, Bool.and_eq_true, bne_iff_ne, Bool.not_eq_true'] at hstart
  simp [endsWord, hat, hstart]

theorem Spelled.exists_head {token : Token} (hspelled : Spelled token) :
    ∃ c rest, token.text.toList = c :: rest ∧ endsWord c = !token.sticks := by
  cases hspelled with
  | comma => exact ⟨',', [], by simp, rfl⟩
  | close => exact ⟨')', [], by simp, rfl⟩
  | quoted hstate => exact ⟨'"', _, String.toList_ofList, rfl⟩
  | command hrest hlower =>
      refine ⟨'@', _, String.toList_ofList, ?_⟩
      simp [sticks, hasAt, String.front?_eq, endsWord]
  | call hrest hlower => exact ⟨'@', _, String.toList_ofList, rfl⟩
  | plain hat hfirst hrest | opening hat hfirst hrest =>
      refine ⟨_, _, String.toList_ofList, ?_⟩
      rw [endsWord_of_startsWord hat hfirst, sticks_plain hat]
      rfl

theorem isOpen_word {c : Char} {rest : List Char} (hrest : ∀ d ∈ rest, continuesWord d = true)
    (span : Span) : isOpen ⟨.word, String.ofList (c :: rest), span⟩ = true := by
  by_cases halone : c = '(' ∧ rest = []
  · obtain ⟨rfl, rfl⟩ := halone
    rfl
  · rw [Decidable.not_and_iff_or_not] at halone
    have hlast := getLast?_cons_ne halone hrest
    simp [isOpen, String.back?_eq, hlast]

theorem isOpen_opening (c : Char) (rest : List Char) (span : Span) :
    isOpen ⟨.word, String.ofList (c :: (rest ++ ['('])), span⟩ = false := by
  have hne : String.ofList (c :: (rest ++ ['('])) ≠ "(" := by
    intro heq
    have hlength := congrArg (fun text => text.toList.length) heq
    simp at hlength
  have hlast : (c :: (rest ++ ['('])).getLast? = some '(' := by
    rw [← List.cons_append, List.getLast?_append]
    rfl
  rw [isOpen, beq_eq_false_iff_ne.mpr hne, String.back?_eq, String.toList_ofList, hlast]
  rfl

/-- A token whose text is read as the same token, and whose first character tells whether an open
word before it takes it in. -/
structure Rereads (token : Token) : Prop where
  exists_head : ∃ c rest, token.text.toList = c :: rest ∧ endsWord c = !token.sticks
  exists_again : ∀ start done, ∃ again, again.look = token.look ∧
    (Scanner.read ⟨start, .nothing, done⟩ token.text.toList).settle.done = again :: done

/-- The text of a token is read as the same token, and a word stays open until a parenthesis or
another token follows. -/
theorem Spelled.read {token : Token} (hspelled : Spelled token) (start : Nat)
    (done : List Token) :
    ∃ scanner again, Scanner.read ⟨start, .nothing, done⟩ token.text.toList = scanner ∧
      scanner.settle.done = again :: done ∧ again.look = token.look ∧
      scanner.inQuote = false ∧ scanner.inWord = token.isOpen := by
  cases hspelled with
  | comma =>
      have hchars : ",".toList = [','] := by simp
      exact ⟨_, _, congrArg _ hchars, rfl, rfl, rfl, rfl⟩
  | close =>
      have hchars : ")".toList = [')'] := by simp
      exact ⟨_, _, congrArg _ hchars, rfl, rfl, rfl, rfl⟩
  | @quoted chars span hstate =>
      refine ⟨_, ofQuote start (String.ofList ('"' :: (chars ++ ['"']))), rfl, ?_⟩
      rw [String.toList_ofList, Scanner.read_literal hstate]
      exact ⟨rfl, rfl, rfl, rfl⟩
  | @command rest span hrest hlower =>
      have hword : IsWord ('@' :: rest) := .intro (by decide) hrest
      refine ⟨_, ofWord start (String.ofList ('@' :: rest)), rfl, ?_⟩
      rw [String.toList_ofList, Scanner.read_word hword, isOpen_word hrest,
        look_ofWord_command start hrest, hlower]
      exact ⟨rfl, rfl, rfl, rfl⟩
  | @call rest span hrest hlower =>
      have hword : IsWord ('@' :: rest) := .intro (by decide) hrest
      refine ⟨_, ofWord start (String.ofList ('@' :: (rest ++ ['(']))), rfl, ?_⟩
      rw [String.toList_ofList, ← List.cons_append, Scanner.read_opening hword, List.cons_append,
        look_ofWord_call, hlower]
      exact ⟨rfl, rfl, rfl, rfl⟩
  | @plain c rest span hat hfirst hrest =>
      refine ⟨_, ofWord start (String.ofList (c :: rest)), rfl, ?_⟩
      rw [String.toList_ofList, Scanner.read_word (.intro hfirst hrest), isOpen_word hrest,
        look_ofWord_plain start hat]
      exact ⟨rfl, rfl, rfl, rfl⟩
  | @opening c rest span hat hfirst hrest =>
      have hword : IsWord (c :: rest) := .intro hfirst hrest
      refine ⟨_, ofWord start (String.ofList (c :: (rest ++ ['(']))), rfl, ?_⟩
      rw [String.toList_ofList, ← List.cons_append, Scanner.read_opening hword, List.cons_append,
        look_ofWord_plain start hat, isOpen_opening]
      exact ⟨rfl, rfl, rfl, rfl⟩

theorem Spelled.rereads {token : Token} (hspelled : Spelled token) : Rereads token := by
  refine ⟨hspelled.exists_head, fun start done => ?_⟩
  obtain ⟨scanner, again, rfl, hdone, hlook, -⟩ := hspelled.read start done
  exact ⟨again, hlook, hdone⟩

/-- The tokens of a script. Only the last one can lack its closing quote. -/
inductive Row : List Token → Prop
  | nil : Row []
  | cons {token : Token} {rest : List Token} (hspelled : Spelled token) (hrest : Row rest) :
      Row (token :: rest)
  | last {token : Token} (hrereads : Rereads token) : Row [token]

theorem rereads_unclosed {chars : List Char} {escaped : Bool}
    (hstate : escapeState false chars = some escaped) (start : Nat) :
    Rereads (ofQuote start (String.ofList ('"' :: chars))) := by
  refine ⟨⟨'"', chars, String.toList_ofList, rfl⟩, fun place done => ?_⟩
  have hread : Scanner.read ⟨place, .nothing, done⟩ ('"' :: chars) =
      ⟨_, .quote place (String.ofList ['"'] ++ String.ofList chars) escaped, done⟩ :=
    Scanner.read_quoted hstate
  refine ⟨ofQuote place (String.ofList ('"' :: chars)), rfl, ?_⟩
  rw [ofQuote, String.toList_ofList, hread, ← String.ofList_append]
  rfl

theorem Pieces.row {offset : Nat} {chars : List Char} {tokens : List Token}
    (hpieces : Pieces offset chars tokens) : Row tokens := by
  induction hpieces with
  | nil => exact .nil
  | blank hblank hrest ih => exact ih
  | lexeme hlexeme hrest ih => exact .cons hlexeme.spelled ih
  | unclosed hstate => exact .last (rereads_unclosed hstate _)

/-- Whether a text ends in a word that may go on. -/
def endsInWord (text : String) : Bool :=
  (Scanner.atEnd text).inWord

end AtScript.Token
