import AtScript.Proofs.IdleScripts
import AtScript.Proofs.LayoutTokens
import AtScript.Proofs.Pages
import Mathlib.Data.List.Induction

/-! # Laying a layout out again

A layout is read again from its text, where words inside parentheses have run together. It is laid
out as it is when all that has run together is a literal word: such a word counts for as many
parentheses as its parts did and is no keyword. A command that has taken in what follows it can be
another command, and a quoted literal that was taken in can fall apart.
-/

namespace AtScript

namespace Layout

open Token (look isOpen sticks continuesWord Rereads Spelled Row scan endsInQuote endsInWord
  Scanner)

/-- Whether a word and a token that it takes in are one literal word together: neither is a command
or quoted, and a parenthesis stands at most at the end. -/
structure Merges (word token : Token) : Prop where
  literal : word.hasAt = false
  complete : word.text ≠ "("
  kind : token.kind = .word
  carriesOn : token.text = "(" ∨ token.text.front? ≠ some '('

/-! ## Pages -/

namespace Page

/-- A page on which some tokens are written does not depend on their places. -/
theorem foldl_push_of_looks {first second : List Token}
    (hlooks : first.map look = second.map look) (page : Page) :
    first.foldl push page = second.foldl push page := by
  have hplace (tokens : List Token) : tokens.foldl push page =
      (tokens.map look).foldl (fun page shown => page.push ⟨shown.1, shown.2, default⟩) page := by
    rw [List.foldl_map]
    rfl
  rw [hplace, hplace, hlooks]

theorem front?_foldl_push {token : Token} (hat : token.hasAt = true) (rest : List Token) :
    ((token :: rest).foldl push {}).text.front? = some '@' := by
  obtain ⟨more, hmore⟩ := exists_text_foldl_push rest (push {} token)
  have hmargin : (outdent {} (Keyword.ofToken? token)).separator = "" := by
    unfold outdent
    split <;> rfl
  have hfirst : (push {} token).text = token.text := by
    have htext : (outdent {} (Keyword.ofToken? token)).text = "" := by
      unfold outdent
      split <;> rfl
    rw [push]
    simp [hmargin, htext]
  rw [Token.hasAt, beq_iff_eq, String.front?_eq] at hat
  rw [List.foldl_cons, hmore, hfirst, String.front?_eq, String.toList_append, List.head?_append,
    hat]
  rfl

/-- The page on which the text of a page is laid out. -/
def again (page : Page) : Page :=
  (scan page.text).foldl push {}

end Page

/-! ## Words that run together -/

theorem continuesWord_of_startsWord {c : Char} (hat : c ≠ '@') (hopen : c ≠ '(')
    (hstart : Token.startsWord c = true) : continuesWord c = true := by
  simp [continuesWord, hopen, Token.endsWord_of_startsWord hat hstart]

/-- The text of a word that carries another one on. -/
theorem exists_of_carriesOn {token : Token} (hspelled : Spelled token) (hkind : token.kind = .word)
    (hat : token.text.front? ≠ some '@')
    (hcarries : token.text = "(" ∨ token.text.front? ≠ some '(') :
    ∃ body tail, token.text.toList = body ++ tail ∧ (∀ c ∈ body, continuesWord c = true) ∧
      (tail = [] ∨ tail = ['(']) := by
  cases hspelled with
  | comma | close | quoted | call => cases hkind
  | command hrest hlower => simp [String.front?_eq] at hat
  | @plain c rest span hne hfirst hrest =>
      by_cases hopen : c = '('
      · subst hopen
        have htext : String.ofList ('(' :: rest) = "(" :=
          hcarries.resolve_right (by simp [String.front?_eq])
        exact ⟨[], ['('], congrArg String.toList htext, by simp, .inr rfl⟩
      · refine ⟨c :: rest, [], by simp, ?_, .inl rfl⟩
        exact List.forall_mem_cons.mpr ⟨continuesWord_of_startsWord hne hopen hfirst, hrest⟩
  | @opening c rest span hne hfirst hrest =>
      have hopen : c ≠ '(' := by
        rcases hcarries with htext | hfront
        · have hlength := congrArg (fun text => text.toList.length) htext
          simp at hlength
        · simpa [String.front?_eq] using hfront
      refine ⟨c :: rest, ['('], by simp, ?_, .inr rfl⟩
      exact List.forall_mem_cons.mpr ⟨continuesWord_of_startsWord hne hopen hfirst, hrest⟩

/-- A word that takes in another one is read as one word, which goes on unless it ends in a
parenthesis. -/
theorem read_carriesOn {token : Token} {body tail : List Char}
    (hchars : token.text.toList = body ++ tail) (hbody : ∀ c ∈ body, continuesWord c = true)
    (htail : tail = [] ∨ tail = ['(']) (offset start : Nat) (word : String) (done : List Token) :
    ∃ after, Scanner.read ⟨offset, .word start word, done⟩ token.text.toList = after ∧
      after.tokens = done.reverse ++ [Token.ofWord start (word ++ token.text)] ∧
      (after.pending = .nothing ∨
        tail = [] ∧ after.pending = .word start (word ++ token.text)) := by
  have htext : token.text = String.ofList (body ++ tail) := by
    rw [← hchars, String.ofList_toList]
  refine ⟨_, rfl, ?_⟩
  rw [hchars, Scanner.read_append, Scanner.read_continuesWord hbody, htext, String.ofList_append,
    ← String.append_assoc]
  rcases htail with rfl | rfl
  · simp [Scanner.tokens, Token.Pending.finish]
  · rw [Scanner.read_cons, Scanner.step_parenthesis, ← String.append_singleton]
    simp [Scanner.tokens, Token.Pending.finish]

/-- A literal word that is not complete yet, and so neither a command nor an opening. -/
structure IsLiteralWord (word : String) : Prop where
  literal : word.front? ≠ some '@'
  incomplete : word.back? ≠ some '('

theorem IsLiteralWord.front?_append {word more : String} (hword : IsLiteralWord word)
    (hmore : more.front? ≠ some '@') : (word ++ more).front? ≠ some '@' := by
  rw [String.front?_eq, String.toList_append, List.head?_append, ← String.front?_eq,
    ← String.front?_eq]
  cases hchar : word.front? with
  | none => exact hmore
  | some c =>
      have hliteral := hword.literal
      rw [hchar] at hliteral
      exact hliteral

theorem ofWord_of_literal {word : String} (hword : word.front? ≠ some '@') (start : Nat) :
    Token.ofWord start word = ⟨.word, word, ⟨start, word.utf8ByteSize⟩⟩ := by
  simp [Token.ofWord, hword]

variable {page : Page} {token : Token}

theorem again_push_of_apart (hquote : endsInQuote page.text = false) (hagain : page.again = page)
    (hrereads : Rereads token) (hapart : ¬Glues page (endsInWord page.text) token) :
    (page.push token).again = page.push token := by
  have hlooks : (scan (page.push token).text).map look = (scan page.text ++ [token]).map look := by
    rw [looks_scan_push hquote hrereads hapart, List.map_append, List.map_singleton]
  rw [Page.again, Page.foldl_push_of_looks hlooks, List.foldl_append, ← Page.again, hagain]
  rfl

/-- The text of a page that ends in a word, with a token that the word takes in. -/
theorem atEnd_push_of_glues (hopen : page.parentheses ≠ 0) {offset start : Nat} {word : String}
    {done : List Token} (hscanner : Scanner.atEnd page.text = ⟨offset, .word start word, done⟩) :
    Scanner.atEnd (page.push token).text =
      Scanner.read ⟨offset, .word start word, done⟩ token.text.toList := by
  obtain ⟨blank, hpush, -, hblank, -⟩ := page.exists_text_push token
  rw [hpush, hblank hopen, String.append_empty, Scanner.atEnd_append, hscanner]

theorem isLiteral_of_sticks (hsticks : token.sticks = true) : token.isLiteral = true := by
  obtain ⟨kind, text, span⟩ := token
  cases kind <;> simp_all [sticks, Token.isLiteral]

/-- What a literal word becomes when it takes in another one. -/
structure Grows (word : String) (token : Token) : Prop where
  literal : IsLiteralWord word
  spelled : Spelled token
  kind : token.kind = .word
  sticks : token.sticks = true
  carriesOn : token.text = "(" ∨ token.text.front? ≠ some '('

namespace Grows

variable {word : String}

theorem front? (hgrows : Grows word token) : token.text.front? ≠ some '@' := by
  have hsticks := hgrows.sticks
  rw [Token.sticks, hgrows.kind] at hsticks
  simpa [Token.hasAt] using hsticks

theorem front?_append (hgrows : Grows word token) : (word ++ token.text).front? ≠ some '@' :=
  hgrows.literal.front?_append hgrows.front?

theorem back?_append (hgrows : Grows word token) :
    (word ++ token.text).back? = token.text.back? := by
  obtain ⟨c, rest, hchars, -⟩ := hgrows.spelled.exists_head
  rw [String.back?_eq, String.back?_eq, String.toList_append, hchars, List.getLast?_append,
    List.getLast?_cons]
  rfl

theorem exists_read (hgrows : Grows word token) (offset start : Nat) (done : List Token) :
    ∃ after, Scanner.read ⟨offset, .word start word, done⟩ token.text.toList = after ∧
      after.tokens = done.reverse ++ [Token.ofWord start (word ++ token.text)] ∧
      (after.pending = .nothing ∨
        token.isOpen = true ∧ IsLiteralWord (word ++ token.text) ∧
          after.pending = .word start (word ++ token.text)) := by
  obtain ⟨body, tail, hchars, hbody, htail⟩ :=
    exists_of_carriesOn hgrows.spelled hgrows.kind hgrows.front? hgrows.carriesOn
  obtain ⟨after, hafter, htokens, hpending⟩ :=
    read_carriesOn hchars hbody htail offset start word done
  refine ⟨after, hafter, htokens, hpending.imp_right ?_⟩
  rintro ⟨rfl, hword⟩
  rw [List.append_nil] at hchars
  have hback : token.text.back? ≠ some '(' := by
    rw [String.back?_eq, hchars]
    exact Token.getLast?_ne_of_continuesWord hbody
  refine ⟨?_, ⟨hgrows.front?_append, ?_⟩, hword⟩
  · simp [Token.isOpen, hgrows.kind, hback]
  · rw [hgrows.back?_append]
    exact hback

/-- The page of a literal word that takes in another one is laid out as it is. -/
theorem again_push (hgrows : Grows word token) (hagain : page.again = page)
    (hopen : page.parentheses ≠ 0) {offset start : Nat} {done : List Token}
    (hscanner : Scanner.atEnd page.text = ⟨offset, .word start word, done⟩) :
    (page.push token).again = page.push token := by
  obtain ⟨after, hafter, htokens, -⟩ := hgrows.exists_read offset start done
  -- What was read before the word leads to the page without it.
  let before := done.reverse.foldl Page.push {}
  have hbefore : page = before.push (Token.ofWord start word) := by
    rw [← hagain, Page.again, Scanner.scan_eq, hscanner]
    simp [Scanner.tokens, Token.Pending.finish, before]
  have hlonger : (page.push token).again =
      before.push (Token.ofWord start (word ++ token.text)) := by
    rw [Page.again, Scanner.scan_eq, atEnd_push_of_glues hopen hscanner, hafter, htokens,
      List.foldl_append]
    rfl
  have hliteral {text : String} (hfront : text.front? ≠ some '@') :
      (Token.ofWord start text).isLiteral = true := by
    simp [ofWord_of_literal hfront, Token.isLiteral, Token.hasAt, hfront]
  have hpage : page = { before with text := before.text ++ before.separator ++ word } := by
    rw [hbefore, Page.push_literal (hliteral hgrows.literal.literal),
      ofWord_of_literal hgrows.literal.literal]
    simp [Token.opensGroup, hgrows.literal.incomplete]
  have hopens : (Token.ofWord start (word ++ token.text)).opensGroup = token.opensGroup := by
    rw [ofWord_of_literal hgrows.front?_append, Token.opensGroup, Token.opensGroup, hgrows.kind,
      hgrows.back?_append]
  have hinside : page.separator = "" := page.separator_spec.2.1 hopen
  rw [hlonger, Page.push_literal (hliteral hgrows.front?_append),
    Page.push_literal (isLiteral_of_sticks hgrows.sticks), hinside, hopens,
    ofWord_of_literal hgrows.front?_append, hpage]
  simp [String.append_assoc]

end Grows

/-! ## Pages that are laid out as they are -/

/-- A page that is laid out again as it is, with the last token that was written on it. Where the
page ends in a word, that is the end of an open token, and of a literal word if the token is one. -/
structure Settled (page : Page) (last : Option Token) : Prop where
  quote : endsInQuote page.text = false
  again : page.again = page
  word : ∀ {start : Nat} {word : String}, (Scanner.atEnd page.text).pending = .word start word →
    ∃ t ∈ last, t.isOpen = true ∧ (t.hasAt = false → t.text ≠ "(" → IsLiteralWord word)

theorem Settled.empty : Settled {} none where
  quote := rfl
  again := rfl
  word := nofun

namespace Settled

variable {last : Option Token}

/-- A token that is taken into the word at the end of a page is taken into a literal word. -/
theorem exists_grows (hsettled : Settled page last)
    (hspelled : token.kind ≠ .quoted → Spelled token)
    (hmerges : ∀ t ∈ last, Glues page t.isOpen token → Merges t token)
    (hglues : Glues page (endsInWord page.text) token) :
    ∃ offset start word done, Scanner.atEnd page.text = ⟨offset, .word start word, done⟩ ∧
      Grows word token := by
  obtain ⟨hopen, hword, hsticks⟩ := hglues
  obtain ⟨offset, start, word, done, hscanner⟩ := Scanner.exists_of_inWord hword
  obtain ⟨t, hlast, hisOpen, hliteral⟩ := hsettled.word (by rw [hscanner])
  have hjoined := hmerges t hlast ⟨hopen, hisOpen, hsticks⟩
  refine ⟨offset, start, word, done, hscanner, ?_⟩
  exact {
    literal := hliteral hjoined.literal hjoined.complete
    spelled := hspelled (by simp [hjoined.kind])
    kind := hjoined.kind
    sticks := hsticks
    carriesOn := hjoined.carriesOn }

theorem again_push (hsettled : Settled page last) (hrereads : Rereads token)
    (hspelled : token.kind ≠ .quoted → Spelled token)
    (hmerges : ∀ t ∈ last, Glues page t.isOpen token → Merges t token) :
    (page.push token).again = page.push token := by
  by_cases hglues : Glues page (endsInWord page.text) token
  · obtain ⟨offset, start, word, done, hscanner, hgrows⟩ :=
      hsettled.exists_grows hspelled hmerges hglues
    exact hgrows.again_push hsettled.again hglues.inside hscanner
  · exact again_push_of_apart hsettled.quote hsettled.again hrereads hglues

/-- A token that was read again and left a word open is that word. -/
theorem isLiteralWord_of_look {scanner : Scanner} {again : Token} {done : List Token}
    (hdone : scanner.settle.done = again :: done) (hlook : again.look = token.look)
    (hopen : token.isOpen = true) {start : Nat} {word : String}
    (hpending : scanner.pending = .word start word) (hat : token.hasAt = false)
    (htext : token.text ≠ "(") : IsLiteralWord word := by
  obtain ⟨hword, -⟩ : Token.ofWord start word = again ∧ scanner.done = done := by
    simpa [Scanner.settle, hpending, Token.Pending.finish] using hdone
  rw [← hword] at hlook
  obtain ⟨-, hsame⟩ := Prod.mk.inj hlook
  have hfront : word.front? ≠ some '@' := by
    intro hfront
    obtain ⟨rest, hchars⟩ := List.head?_eq_some_iff.mp (String.front?_eq ▸ hfront)
    have hcommand := (Token.hasAt_ofWord start '@' rest).mpr rfl
    rw [← hchars, String.ofList_toList, Token.hasAt, hsame, ← Token.hasAt, hat] at hcommand
    cases hcommand
  rw [ofWord_of_literal hfront] at hsame
  obtain rfl : word = token.text := hsame
  have hback : token.kind = .word ∧ token.text.back? ≠ some '(' := by
    simpa [Token.isOpen, htext] using hopen
  exact ⟨hfront, hback.2⟩

theorem push (hsettled : Settled page last) (hspelled : Spelled token)
    (hmerges : ∀ t ∈ last, Glues page t.isOpen token → Merges t token) :
    Settled (page.push token) (some token) := by
  have hagain := hsettled.again_push hspelled.rereads (fun _ => hspelled) hmerges
  by_cases hglues : Glues page (endsInWord page.text) token
  · obtain ⟨offset, start, word, done, hscanner, hgrows⟩ :=
      hsettled.exists_grows (fun _ => hspelled) hmerges hglues
    obtain ⟨after, hafter, -, hpending⟩ := hgrows.exists_read offset start done
    rw [← atEnd_push_of_glues hglues.inside hscanner] at hafter
    refine ⟨?_, hagain, ?_⟩
    · rw [endsInQuote, hafter, Scanner.inQuote]
      rcases hpending with hnothing | ⟨-, -, hword⟩
      · rw [hnothing]
      · rw [hword]
    · intro start' word' hword
      rw [hafter] at hword
      rcases hpending with hnothing | ⟨hopen, hliteral, hlonger⟩
      · rw [hnothing] at hword
        cases hword
      · rw [hlonger] at hword
        cases hword
        exact ⟨token, rfl, hopen, fun _ _ => hliteral⟩
  · obtain ⟨start, hread⟩ := read_push hsettled.quote hspelled.rereads hglues
    obtain ⟨scanner, again, hscanner, hdone, hlook, hclosed, hword⟩ := hspelled.read start
      (Scanner.atEnd page.text).settle.done
    rw [hscanner] at hread
    refine ⟨by rw [endsInQuote, hread, hclosed], hagain, ?_⟩
    intro start word hpending
    rw [hread] at hpending
    have hopen : token.isOpen = true := by
      rw [← hword, Scanner.inWord, hpending]
    exact ⟨token, rfl, hopen, isLiteralWord_of_look hdone hlook hopen hpending⟩

end Settled

/-! ## Whole scripts -/

/-- A page is laid out as it is when every token that a word takes in continues a literal word. -/
theorem settled_foldl_push {tokens : List Token} (hspelled : ∀ token ∈ tokens, Spelled token)
    (hmerges : ∀ before t u after, tokens = before ++ t :: u :: after →
      Glues ((before ++ [t]).foldl Page.push {}) t.isOpen u → Merges t u) :
    Settled (tokens.foldl Page.push {}) tokens.getLast? := by
  induction tokens using List.reverseRecOn with
  | nil => exact .empty
  | append_singleton before token ih =>
      have hsettled : Settled (before.foldl Page.push {}) before.getLast? := by
        apply ih
        · exact fun token hmem => hspelled token (List.mem_append_left _ hmem)
        · intro first t u after heq
          apply hmerges first t u (after ++ [token])
          rw [heq]
          simp
      rw [List.foldl_append, List.getLast?_append]
      apply hsettled.push (hspelled token (by simp))
      intro t hlast hglues
      obtain ⟨first, rfl⟩ := List.getLast?_eq_some_iff.mp hlast
      exact hmerges first t token [] (by simp) hglues

/-- The last token is the only one that can lack its end. -/
theorem spelled_or_last {tokens : List Token} (hrow : Row tokens) :
    (∀ token ∈ tokens, Spelled token) ∨
      ∃ before last, tokens = before ++ [last] ∧ (∀ token ∈ before, Spelled token) ∧
        Rereads last := by
  induction hrow with
  | nil => exact .inl nofun
  | @cons token rest hspelled hrest ih =>
      rcases ih with hall | ⟨before, last, rfl, hbefore, hlast⟩
      · exact .inl (List.forall_mem_cons.mpr ⟨hspelled, hall⟩)
      · exact .inr ⟨token :: before, last, rfl, List.forall_mem_cons.mpr ⟨hspelled, hbefore⟩, hlast⟩
  | @last token hrereads => exact .inr ⟨[], token, rfl, nofun, hrereads⟩

theorem again_foldl_push {text : String}
    (hmerges : ∀ before t u after, scan text = before ++ t :: u :: after →
      Glues ((before ++ [t]).foldl Page.push {}) t.isOpen u → Merges t u) :
    ((scan text).foldl Page.push {}).again = (scan text).foldl Page.push {} := by
  rcases spelled_or_last (Scanner.scan_pieces text).row with
    hall | ⟨before, last, hscan, hbefore, hlast⟩
  · exact (settled_foldl_push hall hmerges).again
  · have hmem : last ∈ scan text := by simp [hscan]
    rw [hscan] at hmerges ⊢
    have hsettled := settled_foldl_push hbefore fun first t u after heq =>
      hmerges first t u (after ++ [last]) (by simp [heq])
    rw [List.foldl_append]
    apply hsettled.again_push hlast (Token.spelled_of_mem_scan hmem)
    intro t hfinal hglues
    obtain ⟨first, rfl⟩ := List.getLast?_eq_some_iff.mp hfinal
    exact hmerges first t last [] (by simp) hglues

/-- A layout is laid out again as it is, unless the script has two tokens in a row, the second one
inside parentheses, of which the first is a word that goes on and the second is taken into it, and
either the first is a command or a lone parenthesis or the second is quoted or starts with a
parenthesis that is not all of it. Text that is no script is its own layout. -/
theorem layout_of_layout {text page : String} (hpage : script text = .ok page)
    (hmerges : Value.isScript text = true →
      ∀ before t u after, scan text = before ++ t :: u :: after →
        ((before ++ [t]).foldl Page.push {}).parentheses ≠ 0 →
        t.kind = .word → (t.text = "(" ∨ t.text.back? ≠ some '(') →
        (u.kind = .quoted ∨ u.kind = .word ∧ u.hasAt = false) →
          t.hasAt = false ∧ t.text ≠ "(" ∧ u.kind = .word ∧
            (u.text = "(" ∨ u.text.front? ≠ some '(')) :
    script page = .ok page := by
  cases hscript : Value.isScript text with
  | false =>
      obtain rfl : text = page := by simpa [script, hscript] using hpage
      exact hpage
  | true =>
      have hagain : ((scan text).foldl Page.push {}).again = (scan text).foldl Page.push {} := by
        apply again_foldl_push
        intro before t u after hscan hglues
        have hopen : t.kind = .word ∧ (t.text = "(" ∨ t.text.back? ≠ some '(') := by
          simpa [isOpen] using hglues.word
        have hsticks : u.kind = .quoted ∨ u.kind = .word ∧ u.hasAt = false := by
          simpa [sticks] using hglues.sticks
        obtain ⟨hliteral, hcomplete, hkind, hcarries⟩ :=
          hmerges hscript before t u after hscan hglues.inside hopen.1 hopen.2 hsticks
        exact ⟨hliteral, hcomplete, hkind, hcarries⟩
      obtain ⟨token, rest, hscan, hat⟩ := (Token.isScript_iff_scan text).mp hscript
      have hfront := Page.front?_foldl_push hat rest
      have hwritten := script_eq_ok hscript hpage
      rw [← hscan, ← hwritten] at hfront
      have hscript' : Value.isScript page = true := by simp [Value.isScript, hfront]
      rw [Page.again, ← hwritten] at hagain
      rw [script, if_pos hscript', hagain, ← hpage, script, if_pos hscript]

/-- Two literal words in one argument are one word in the layout, which is left as it is. -/
theorem layout_of_joined_words :
    script "@WRITE( a b )" = .ok "@write(ab)" ∧ script "@write(ab)" = .ok "@write(ab)" := by
  have hpage : script "@WRITE( a b )" = .ok "@write(ab)" := by
    have hwritten : (scan "@WRITE( a b )").foldl Page.push {} =
        ⟨"@write(ab)", 1, 0, false, false⟩ := by decide +kernel
    rw [script, if_pos (by decide +kernel), hwritten]
    rfl
  refine ⟨hpage, layout_of_layout hpage ?_⟩
  have hscan : scan "@WRITE( a b )" = [⟨.call, "@write(", ⟨0, 7⟩⟩, ⟨.word, "a", ⟨8, 1⟩⟩,
      ⟨.word, "b", ⟨10, 1⟩⟩, ⟨.close, ")", ⟨12, 1⟩⟩] := by decide +kernel
  intro _ before t u after heq _ hkind _ hu
  rw [hscan] at heq
  rcases before with _ | ⟨_, _ | ⟨_, _ | ⟨_, _ | ⟨_, before⟩⟩⟩⟩
  · cases heq
    cases hkind
  · cases heq
    decide
  · cases heq
    simp at hu
  · cases heq
  · simp at heq

/-- A command that has taken in a word is put in lower case, a keyword that has come about counts as
one, a literal that was taken in falls apart, and a parenthesis that was alone opens nothing. -/
theorem layouts_that_change :
    (script "@write(@foo Bar)" = .ok "@write(@fooBar)" ∧
      script "@write(@fooBar)" = .ok "@write(@foobar)") ∧
    (script "@write(@end if)" = .ok "@write(@endif)" ∧
      script "@write(@endif)" = .error (.indentation 0)) ∧
    (script "@write(a \"b c\")" = .ok "@write(a\"b c\")" ∧
      script "@write(a\"b c\")" = .ok "@write(a\"bc\")") ∧
    (script "@write(( a))" = .ok "@write((a))" ∧
      script "@write((a))" = .error (.parentheses (-1))) := by
  decide +kernel

end Layout

end AtScript
