import AtScript.Layout
import AtScript.Proofs.Rereading

/-! # The tokens of a layout

Laying out a script writes its tokens again, with nothing between them inside parentheses. The text
that results has the tokens of the script unless, somewhere inside parentheses, a word that is still
open stands right before a token that it can take in.
-/

namespace AtScript.Layout

open Token (look isOpen sticks Rereads Spelled Row scan endsInQuote endsInWord Scanner)

/-! ## Pages -/

namespace Page

@[simp]
theorem text_noteKeyword (page : Page) (keyword : Option Keyword) :
    (page.noteKeyword keyword).text = page.text := by
  unfold noteKeyword
  split <;> rfl

@[simp]
theorem text_noteParenthesis (page : Page) (token : Token) :
    (page.noteParenthesis token).text = page.text := by
  simp only [noteParenthesis]
  repeat' split
  all_goals rfl

/-- A separator is white space. Inside parentheses there is none, and outside there is some after
the first token. -/
theorem separator_spec (page : Page) :
    (∀ c ∈ page.separator.toList, Text.isBlankChar c = true) ∧
      (page.parentheses ≠ 0 → page.separator = "") ∧
      (page.separator = "" → page.parentheses ≠ 0 ∨ page.text = "") := by
  unfold separator
  split
  next hopen => exact ⟨by simp, fun _ => rfl, fun _ => .inl hopen⟩
  next hclosed =>
    split
    · refine ⟨fun c hmem => ?_, fun hopen => absurd hopen hclosed, by simp⟩
      obtain rfl : c = ' ' := by simpa using hmem
      decide
    · refine ⟨?_, fun hopen => absurd hopen hclosed, ?_⟩
      · intro c hmem
        rw [String.toList_append, String.toList_ofList, List.mem_append] at hmem
        rcases hmem with hbreak | htabs
        · split at hbreak
          · simp at hbreak
          · rw [List.mem_singleton.mp hbreak]
            decide
        · rw [List.eq_of_mem_replicate htabs]
          decide
      · intro hempty
        rw [String.append_eq_empty_iff] at hempty
        by_cases htext : page.text.isEmpty
        · exact .inr (String.isEmpty_iff.mp htext)
        · simp [htext] at hempty

/-- A token is written after white space that keeps it apart outside parentheses. -/
theorem exists_text_push (page : Page) (token : Token) :
    ∃ blank, (page.push token).text = page.text ++ blank ++ token.text ∧
      (∀ c ∈ blank.toList, Text.isBlankChar c = true) ∧
      (page.parentheses ≠ 0 → blank = "") ∧
      (blank = "" → page.parentheses ≠ 0 ∨ page.text = "") := by
  have houtdent : (page.outdent (Keyword.ofToken? token)).text = page.text ∧
      (page.outdent (Keyword.ofToken? token)).parentheses = page.parentheses := by
    unfold outdent
    split <;> exact ⟨rfl, rfl⟩
  have hspec := separator_spec (page.outdent (Keyword.ofToken? token))
  rw [houtdent.1, houtdent.2] at hspec
  refine ⟨_, ?_, hspec⟩
  rw [push]
  simp [houtdent]

theorem exists_text_foldl_push (tokens : List Token) (page : Page) :
    ∃ more, (tokens.foldl push page).text = page.text ++ more := by
  induction tokens generalizing page with
  | nil => exact ⟨"", by simp⟩
  | cons token rest ih =>
      obtain ⟨more, hmore⟩ := ih (page.push token)
      obtain ⟨blank, hpush, -⟩ := exists_text_push page token
      refine ⟨blank ++ token.text ++ more, ?_⟩
      rw [List.foldl_cons, hmore, hpush]
      simp only [String.append_assoc]

end Page

/-! ## Tokens that are kept and words that run on -/

/-- Whether a token becomes part of the word before it, which is still open or not, when it is
written on a page. -/
structure Glues (page : Page) (inWord : Bool) (token : Token) : Prop where
  inside : page.parentheses ≠ 0
  word : inWord = true
  sticks : token.sticks = true

/-- Writing a token that no open word takes in adds that token to those that are read. -/
theorem read_push {page : Page} {token : Token} (hquote : endsInQuote page.text = false)
    (hrereads : Rereads token)
    (hapart : ¬Glues page (endsInWord page.text) token) :
    ∃ start, Scanner.atEnd (page.push token).text =
      Scanner.read ⟨start, .nothing, (Scanner.atEnd page.text).settle.done⟩ token.text.toList := by
  obtain ⟨blank, hpush, hblank, -, hempty⟩ := page.exists_text_push token
  obtain ⟨c, rest, hchars, hends⟩ := hrereads.exists_head
  rw [hpush, Scanner.atEnd_append, Scanner.atEnd_append]
  by_cases hnone : blank = ""
  · subst hnone
    refine ⟨(Scanner.atEnd page.text).offset, ?_⟩
    -- The last token on the page is complete, or the first character of the next one ends it.
    have hbreak : (Scanner.atEnd page.text).step c =
        (Scanner.atEnd page.text).settle.step c := by
      apply Scanner.step_settle
      cases hword : endsInWord page.text with
      | false => exact .inl (Scanner.pending_eq_nothing hquote hword)
      | true =>
          obtain ⟨offset, start, text, done, hscanner⟩ := Scanner.exists_of_inWord hword
          refine .inr ⟨?_, start, text, by rw [hscanner]⟩
          have hopen : page.parentheses ≠ 0 := by
            refine (hempty rfl).resolve_right fun htext => ?_
            rw [htext] at hword
            cases hword
          rw [hends, Bool.not_eq_true', ← Bool.not_eq_true]
          exact fun hsticks => hapart ⟨hopen, hword, hsticks⟩
    rw [hchars, Scanner.read_cons, Scanner.read_cons, String.toList_empty, Scanner.read_nil, hbreak]
    rfl
  · have hne : blank.toList ≠ [] := mt String.toList_eq_nil_iff.mp hnone
    rw [Scanner.read_blank_settle hquote hne hblank]
    exact ⟨_, rfl⟩

theorem looks_scan_push {page : Page} {token : Token} (hquote : endsInQuote page.text = false)
    (hrereads : Rereads token)
    (hapart : ¬Glues page (endsInWord page.text) token) :
    (scan (page.push token).text).map look = (scan page.text).map look ++ [token.look] := by
  obtain ⟨start, hread⟩ := read_push hquote hrereads hapart
  obtain ⟨again, hlook, hdone⟩ :=
    hrereads.exists_again start (Scanner.atEnd page.text).settle.done
  have hscan (script : String) :
      scan script = (Scanner.atEnd script).settle.done.reverse := rfl
  rw [hscan, hread, hdone, List.reverse_cons, List.map_append, ← hscan, List.map_singleton, hlook]

/-- Once an open word has taken in a token, the tokens on the page are not all kept. -/
theorem looks_scan_ne {page : Page} {token : Token} (hrereads : Rereads token)
    (hglues : Glues page (endsInWord page.text) token) (rest : List Token)
    (looks : List (TokenKind × String)) :
    (scan ((token :: rest).foldl Page.push page).text).map look ≠
      (scan page.text).map look ++ looks := by
  obtain ⟨hopen, hword, hsticks⟩ := hglues
  obtain ⟨blank, hpush, -, hblank, -⟩ := page.exists_text_push token
  obtain ⟨more, hmore⟩ := Page.exists_text_foldl_push rest (page.push token)
  obtain ⟨c, chars, hchars, hends⟩ := hrereads.exists_head
  obtain ⟨offset, start, text, done, hscanner⟩ := Scanner.exists_of_inWord hword
  have hpage : scan page.text = done.reverse ++ [Token.ofWord start text] := by
    rw [Scanner.scan_eq, hscanner]
    exact List.reverse_cons
  -- What the word takes in begins with the first character of the token.
  obtain ⟨taken, others, htokens, htaken⟩ := Scanner.exists_tokens_read_word offset start text done
    (c :: chars ++ more.toList)
  have hnew : scan ((token :: rest).foldl Page.push page).text =
      done.reverse ++ Token.ofWord start (text ++ taken) :: others := by
    rw [List.foldl_cons, hmore, hpush, hblank hopen, String.append_empty, Scanner.scan_eq,
      Scanner.atEnd_append, Scanner.atEnd_append, hscanner, hchars, ← Scanner.read_append, htokens]
  have hgrown : taken ≠ "" := htaken ⟨c, rfl, by rw [hends, hsticks]; rfl⟩
  rw [hpage, hnew]
  intro heq
  simp only [List.map_append, List.map_cons, List.append_assoc, List.append_cancel_left_eq,
    List.map_nil, List.singleton_append, List.cons.injEq] at heq
  exact Token.text_ofWord_append_ne start text hgrown (congrArg Prod.snd heq.1)

/-- Whether no token is taken into a word before it when some tokens are written on a page, which
ends in an open word or not. -/
def Apart (page : Page) (inWord : Bool) : List Token → Prop
  | [] => True
  | token :: rest =>
    ¬Glues page inWord token ∧ Apart (page.push token) token.isOpen rest

/-- The tokens on a page are kept, and those that are written on it added, exactly when no token is
taken into a word. -/
theorem looks_scan_foldl_push_iff {tokens : List Token} (hrow : Row tokens) (page : Page)
    (hquote : endsInQuote page.text = false) :
    (scan (tokens.foldl Page.push page).text).map look =
        (scan page.text).map look ++ tokens.map look ↔
      Apart page (endsInWord page.text) tokens := by
  induction hrow generalizing page with
  | nil => simp [Apart]
  | @cons token rest hspelled hrest ih =>
      by_cases hglues : Glues page (endsInWord page.text) token
      · have hne := looks_scan_ne hspelled.rereads hglues rest
        exact ⟨fun heq => absurd heq (hne _), fun hapart => absurd hglues hapart.1⟩
      · have hlooks := looks_scan_push hquote hspelled.rereads hglues
        obtain ⟨start, hread⟩ := read_push hquote hspelled.rereads hglues
        obtain ⟨scanner, -, hscanner, -, -, hclosed, hword⟩ := hspelled.read start
          (Scanner.atEnd page.text).settle.done
        have hpushed := ih (page.push token) (by rw [endsInQuote, hread, hscanner, hclosed])
        rw [hlooks, endsInWord, hread, hscanner, hword, List.append_assoc] at hpushed
        exact hpushed.trans (and_iff_right hglues).symm
  | @last token hrereads =>
      by_cases hglues : Glues page (endsInWord page.text) token
      · have hne := looks_scan_ne hrereads hglues []
        exact ⟨fun heq => absurd heq (hne _), fun hapart => absurd hglues hapart.1⟩
      · exact ⟨fun _ => ⟨hglues, trivial⟩, fun _ => looks_scan_push hquote hrereads hglues⟩

theorem apart_iff (page : Page) (inWord : Bool) (tokens : List Token) :
    Apart page inWord tokens ↔
      (∀ u after, tokens = u :: after → ¬Glues page inWord u) ∧
        ∀ before t u after, tokens = before ++ t :: u :: after →
          ¬Glues ((before ++ [t]).foldl Page.push page) t.isOpen u := by
  induction tokens generalizing page inWord with
  | nil => simp [Apart]
  | cons token rest ih =>
      rw [Apart, ih]
      constructor
      · rintro ⟨hfirst, hnext, hlater⟩
        refine ⟨?_, ?_⟩
        · rintro u after heq
          cases heq
          exact hfirst
        · rintro (_ | ⟨b, before⟩) t u after heq
          · obtain ⟨rfl, rfl⟩ := List.cons.inj heq
            exact hnext u after rfl
          · obtain ⟨rfl, rfl⟩ := List.cons.inj heq
            exact hlater before t u after rfl
      · rintro ⟨hfirst, hlater⟩
        refine ⟨hfirst token rest rfl, ?_, ?_⟩
        · rintro u after rfl
          exact hlater [] token u after rfl
        · rintro before t u after rfl
          exact hlater (token :: before) t u after rfl

theorem script_eq_ok {text page : String} (hscript : Value.isScript text = true)
    (hpage : script text = .ok page) : page = ((scan text).foldl Page.push {}).text := by
  rw [script, if_pos hscript, Page.finish] at hpage
  split at hpage
  · cases hpage
  split at hpage
  · cases hpage
  · cases hpage
    rfl

end AtScript.Layout
