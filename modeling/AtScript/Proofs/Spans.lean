import AtScript.Proofs.Lexemes

/-! # Where tokens stand

A token stands where its characters were read: its place begins and ends between two characters of
the script.
-/

namespace AtScript

/-- A range of bytes that begins and ends between two characters of a text. -/
def Span.LiesIn (span : Span) (text : String) : Prop :=
  ∃ before inside after : String, text = before ++ inside ++ after ∧
    before.utf8ByteSize = span.start ∧ inside.utf8ByteSize = span.length

namespace Span.LiesIn

theorem push {span : Span} {text : String} (hlies : span.LiesIn text) (c : Char) :
    span.LiesIn (text.push c) := by
  obtain ⟨before, inside, after, rfl, hstart, hlength⟩ := hlies
  refine ⟨before, inside, after.push c, ?_, hstart, hlength⟩
  rw [String.push_eq_append, String.push_eq_append, String.append_assoc]

/-- What stands at the end of a text lies in it. -/
theorem ending (before inside : String) :
    Span.LiesIn ⟨before.utf8ByteSize, inside.utf8ByteSize⟩ (before ++ inside) :=
  ⟨before, inside, "", String.append_empty.symm, rfl, rfl⟩

end Span.LiesIn

namespace Token

theorem span_ofWord (start : Nat) (text : String) :
    (ofWord start text).span = ⟨start, text.utf8ByteSize⟩ := by
  unfold ofWord
  split <;> rfl

/-- The token that is being read stands at the end of what was read. -/
def Pending.Ends (text : String) : Pending → Prop
  | .nothing => True
  | .word start part | .quote start part _ =>
    ∃ before : String, text = before ++ part ∧ before.utf8ByteSize = start

theorem Pending.Ends.finish {text : String} {pending : Pending} (hends : pending.Ends text)
    {token : Token} (htoken : token ∈ pending.finish) : token.span.LiesIn text := by
  cases pending with
  | nothing => simp [Pending.finish] at htoken
  | word start part =>
      obtain ⟨before, rfl, rfl⟩ := hends
      rw [List.mem_singleton.mp htoken, span_ofWord]
      exact .ending before part
  | quote start part escaped =>
      obtain ⟨before, rfl, rfl⟩ := hends
      rw [List.mem_singleton.mp htoken]
      exact .ending before part

namespace Scanner

/-- All tokens of a scanner stand in the text it has read. -/
structure HasRead (scanner : Scanner) (text : String) : Prop where
  offset : scanner.offset = text.utf8ByteSize
  pending : scanner.pending.Ends text
  done : ∀ token ∈ scanner.done, token.span.LiesIn text

variable {scanner : Scanner} {text : String}

/-- A character between two tokens. -/
theorem HasRead.begin {done : List Token} (hdone : ∀ token ∈ done, token.span.LiesIn text)
    (c : Char) : (begin text.utf8ByteSize done c).HasRead (text.push c) := by
  have hoffset : text.utf8ByteSize + c.utf8Size = (text.push c).utf8ByteSize :=
    String.utf8ByteSize_push.symm
  have hpush : text.push c = text ++ String.singleton c := String.push_eq_append c
  have hlast : Span.LiesIn ⟨text.utf8ByteSize, c.utf8Size⟩ (text.push c) := by
    rw [hpush, ← String.utf8ByteSize_singleton]
    exact .ending text _
  have hmore : ∀ token ∈ done, token.span.LiesIn (text.push c) :=
    fun token htoken => (hdone token htoken).push c
  -- A comma and a parenthesis are tokens of their own.
  have hmark {mark : Token} (hspan : mark.span = ⟨text.utf8ByteSize, c.utf8Size⟩) :
      ∀ token ∈ mark :: done, token.span.LiesIn (text.push c) := by
    intro token htoken
    rcases List.mem_cons.mp htoken with rfl | htoken
    · rw [hspan]
      exact hlast
    · exact hmore token htoken
  unfold Scanner.begin
  split
  next hcomma =>
    subst hcomma
    exact ⟨hoffset, trivial, hmark rfl⟩
  next =>
    split
    next hclose =>
      subst hclose
      exact ⟨hoffset, trivial, hmark rfl⟩
    next =>
      split
      next hquote =>
        subst hquote
        exact ⟨hoffset, ⟨text, hpush, rfl⟩, hmore⟩
      next =>
        split
        · exact ⟨hoffset, trivial, hmore⟩
        · exact ⟨hoffset, ⟨text, hpush, rfl⟩, hmore⟩

/-- The token at the end counts as well. -/
theorem HasRead.settle (hread : scanner.HasRead text) {token : Token}
    (htoken : token ∈ scanner.pending.finish ++ scanner.done) : token.span.LiesIn text := by
  rcases List.mem_append.mp htoken with hpending | hdone
  · exact hread.pending.finish hpending
  · exact hread.done token hdone

/-- The token that is being read grows by a character. -/
theorem ends_push {text part : String} {start : Nat}
    (hends : ∃ before : String, text = before ++ part ∧ before.utf8ByteSize = start) (c : Char) :
    ∃ before : String, text.push c = before ++ part.push c ∧ before.utf8ByteSize = start := by
  obtain ⟨before, rfl, hstart⟩ := hends
  refine ⟨before, ?_, hstart⟩
  rw [String.push_eq_append, String.push_eq_append, String.append_assoc]

/-- What one more character brings. -/
theorem HasRead.step (hread : scanner.HasRead text) (c : Char) :
    (scanner.step c).HasRead (text.push c) := by
  obtain ⟨offset, pending, done⟩ := scanner
  obtain ⟨rfl, hends, hdone⟩ := id hread
  dsimp only at hends hdone
  have hoffset : text.utf8ByteSize + c.utf8Size = (text.push c).utf8ByteSize :=
    String.utf8ByteSize_push.symm
  have hmore : ∀ token ∈ done, token.span.LiesIn (text.push c) :=
    fun token htoken => (hdone token htoken).push c
  cases pending with
  | nothing => exact .begin hdone c
  | word start part =>
      have hgrown : HasRead ⟨text.utf8ByteSize + c.utf8Size, .word start (part.push c), done⟩
          (text.push c) := ⟨hoffset, ends_push hends c, hmore⟩
      simp only [Scanner.step]
      split
      · exact ⟨hoffset, trivial, fun token htoken => hgrown.settle htoken⟩
      · split
        · exact .begin (fun token htoken => hread.settle htoken) c
        · exact hgrown
  | quote start part escaped =>
      have hgrown (after : Bool) : HasRead
          ⟨text.utf8ByteSize + c.utf8Size, .quote start (part.push c) after, done⟩
          (text.push c) := ⟨hoffset, ends_push hends c, hmore⟩
      cases escaped with
      | true => exact hgrown false
      | false =>
          simp only [Scanner.step]
          split
          · exact ⟨hoffset, trivial, fun token htoken => (hgrown false).settle htoken⟩
          · exact hgrown _

theorem HasRead.read (hread : scanner.HasRead text) (chars : List Char) :
    (scanner.read chars).HasRead (text ++ String.ofList chars) := by
  induction chars generalizing scanner text with
  | nil => simpa using hread
  | cons c rest ih =>
      have hpush : text ++ String.ofList (c :: rest) = text.push c ++ String.ofList rest := by
        rw [String.ofList_cons, ← String.append_assoc, String.push_eq_append]
      rw [read_cons, hpush]
      exact ih (hread.step c)

end Scanner

/-- Every token stands in the script it was read from. -/
theorem liesIn_of_mem_scan {script : String} {token : Token} (htoken : token ∈ scan script) :
    token.span.LiesIn script := by
  have hstart : Scanner.HasRead {} "" := ⟨rfl, trivial, nofun⟩
  have hread := hstart.read script.toList
  rw [String.ofList_toList, String.empty_append] at hread
  exact hread.settle (List.mem_reverse.mp htoken)

end Token

end AtScript
