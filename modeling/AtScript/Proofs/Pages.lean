import AtScript.Layout
import AtScript.Proofs.Grammar

/-! # What a token adds to a page

A token that shapes no block adds its text after a separator, and perhaps a parenthesis. Inside
parentheses there is no separator. The keywords of blocks move the level of the next line and tell
where a condition starts and ends.
-/

namespace AtScript.Layout.Page

variable {page : Page} {token : Token}

theorem separator_inside (hinside : page.parentheses ≠ 0) : page.separator = "" := by
  rw [separator, if_pos hinside]

/-! ## Tokens that shape no block -/

theorem push_inert (hinert : token.Inert) :
    page.push token =
      noteParenthesis { page with text := page.text ++ page.separator ++ token.text } token := by
  rw [push]
  cases hkeyword : Keyword.ofToken? token with
  | none => simp [outdent, noteKeyword]
  | some keyword =>
      have hshapes := hinert keyword hkeyword
      cases keyword with
      | branch part | loop family | endLoop family => cases hshapes
      | _ => simp [outdent, endsBody, noteKeyword]

/-- A token that is no parenthesis adds its text. -/
theorem push_plain (hinert : token.Inert) (hopens : token.opensGroup = false)
    (hkind : token.kind ≠ .close) :
    page.push token = { page with text := page.text ++ page.separator ++ token.text } := by
  rw [push_inert hinert, noteParenthesis, if_neg (by simp [hopens]), if_neg hkind]

theorem push_opener (hinert : token.Inert) (hopens : token.opensGroup = true) :
    page.push token = { page with
      text := page.text ++ page.separator ++ token.text
      parentheses := page.parentheses + 1 } := by
  rw [push_inert hinert, noteParenthesis, if_pos hopens]

/-- A literal adds its text and perhaps a parenthesis. -/
theorem push_literal (hliteral : token.isLiteral = true) :
    page.push token = { page with
      text := page.text ++ page.separator ++ token.text
      parentheses := if token.opensGroup then page.parentheses + 1 else page.parentheses } := by
  have hinert := Token.inert_of_ofToken?_eq_none (Token.ofToken?_eq_none_of_isLiteral hliteral)
  have hkind : token.kind ≠ .close := by
    intro hkind
    simp [Token.isLiteral, hkind] at hliteral
  cases hopens : token.opensGroup with
  | true => exact push_opener hinert hopens
  | false => exact push_plain hinert hopens hkind

theorem opensGroup_of_close (hkind : token.kind = .close) : token.opensGroup = false := by
  simp [Token.opensGroup, hkind]

/-- A closing parenthesis that closes no header of a loop. -/
theorem push_close (hkind : token.kind = .close) (hinside : page.parentheses ≠ 0)
    (hbody : page.inLoopHeader = false ∨ page.parentheses ≠ 1) :
    page.push token = { page with
      text := page.text ++ token.text
      parentheses := page.parentheses - 1 } := by
  have hinert := Token.inert_of_ofToken?_eq_none (Token.ofToken?_eq_none_of_close hkind)
  rw [push_inert hinert, noteParenthesis, if_neg (by simp [opensGroup_of_close hkind]),
    if_pos hkind, separator_inside hinside, String.append_empty]
  have hnone : (page.inLoopHeader && page.parentheses - 1 == 0) = false := by
    rcases hbody with hheader | hmore
    · rw [hheader, Bool.false_and]
    · rw [beq_eq_false_iff_ne.mpr (by omega), Bool.and_false]
  simp only [hnone, Bool.false_eq_true, if_false]

/-- The closing parenthesis of the header of a loop. -/
theorem push_close_header (hkind : token.kind = .close) (hheader : page.inLoopHeader = true)
    (hlast : page.parentheses = 1) :
    page.push token = { page with
      text := page.text ++ token.text
      parentheses := 0
      inLoopHeader := false
      indent := page.indent + 1 } := by
  have hinert := Token.inert_of_ofToken?_eq_none (Token.ofToken?_eq_none_of_close hkind)
  rw [push_inert hinert, noteParenthesis, if_neg (by simp [opensGroup_of_close hkind]),
    if_pos hkind, separator_inside (by omega), String.append_empty]
  simp [hheader, hlast]

/-! ## Keywords of blocks -/

theorem text_outdent (page : Page) (keyword : Option Keyword) :
    (page.outdent keyword).text = page.text := by
  unfold outdent
  split <;> rfl

theorem push_structural {keyword : Keyword} (htoken : Keyword.ofToken? token = some keyword)
    (hkeyword : keyword.isStructural = true) (hopens : token.opensGroup = false) :
    page.push token =
      noteKeyword { page.outdent keyword with
        text := page.text ++ (page.outdent keyword).separator ++ token.text } keyword := by
  have hkind := Keyword.kind_of_isStructural htoken hkeyword
  rw [push, htoken]
  simp only [noteParenthesis, hopens, Bool.false_eq_true, if_false, hkind, reduceCtorEq,
    text_outdent]

theorem push_loop {family : LoopFamily} (htoken : Keyword.ofToken? token = some (.loop family))
    (hopens : token.opensGroup = true) :
    page.push token = { page with
      text := page.text ++ page.separator ++ token.text
      parentheses := page.parentheses + 1
      inLoopHeader := true } := by
  rw [push, htoken]
  simp [outdent, endsBody, noteKeyword, noteParenthesis, hopens]

end AtScript.Layout.Page
