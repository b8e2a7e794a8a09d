import AtScript.Proofs.Literals

/-! # What a quoted token denotes

Reading a script decides where a literal ends, and the text that the literal denotes is decoded from
its token. Both see the same escapes, except in a literal without its closing quote that ends in an
escaped quote: there the escaped quote is dropped.
-/

namespace AtScript

namespace Value

/-! ## Escapes -/

/-- The text that the characters of a literal denote. A backslash in front of a quote or of another
backslash is dropped, every other one is kept. -/
inductive Decodes : List Char → List Char → Prop
  | nil : Decodes [] []
  | escaped {c : Char} {rest decoded : List Char} (hspecial : c = '"' ∨ c = '\\')
      (hrest : Decodes rest decoded) : Decodes ('\\' :: c :: rest) (c :: decoded)
  | other {c : Char} {rest decoded : List Char} (hother : ¬(c = '"' ∨ c = '\\'))
      (hrest : Decodes rest decoded) : Decodes ('\\' :: c :: rest) ('\\' :: c :: decoded)
  | last : Decodes ['\\'] ['\\']
  | plain {c : Char} {rest decoded : List Char} (hplain : c ≠ '\\')
      (hrest : Decodes rest decoded) : Decodes (c :: rest) (c :: decoded)

theorem decodes_unescape (chars : List Char) : Decodes chars (unescape chars) := by
  fun_induction unescape chars with
  | case1 => exact .nil
  | case2 => exact .last
  | case3 c rest hspecial ih => exact .escaped hspecial ih
  | case4 c rest hother ih => exact .other hother ih
  | case5 c rest hlast hescape ih =>
      refine .plain ?_ ih
      rintro rfl
      cases rest with
      | nil => exact hlast rfl rfl
      | cons d rest => exact hescape d rest rfl rfl

theorem Decodes.unescape_eq {chars decoded : List Char} (hdecodes : Decodes chars decoded) :
    unescape chars = decoded := by
  induction hdecodes with
  | nil => rfl
  | escaped hspecial _ ih => rw [unescape, if_pos hspecial, ih]
  | other hother _ ih => rw [unescape, if_neg hother, ih]
  | last => rfl
  | plain hplain _ ih =>
      rw [unescape, ih]
      · exact fun heq => absurd heq hplain
      · exact fun _ _ heq => absurd heq hplain

/-- When the next character is escaped, the last backslash denotes itself only as long as no
character follows. -/
theorem Decodes.of_escapeState {chars decoded : List Char} (hdecodes : Decodes chars decoded)
    (hstate : Token.escapeState false chars = some true) :
    ∃ core, decoded = core ++ ['\\'] ∧ Decodes (chars ++ ['"']) (core ++ ['"']) := by
  induction hdecodes with
  | nil => cases hstate
  | @escaped c rest decoded hspecial hrest ih =>
      obtain ⟨core, rfl, hcore⟩ := ih hstate
      exact ⟨c :: core, rfl, .escaped hspecial hcore⟩
  | @other c rest decoded hother hrest ih =>
      obtain ⟨core, rfl, hcore⟩ := ih hstate
      exact ⟨'\\' :: c :: core, rfl, .other hother hcore⟩
  | last => exact ⟨[], rfl, .escaped (.inl rfl) .nil⟩
  | @plain c rest decoded hplain hrest ih =>
      rw [Token.escapeState] at hstate
      split at hstate
      next => cases hstate
      next =>
        rw [decide_eq_false hplain] at hstate
        obtain ⟨core, rfl, hcore⟩ := ih hstate
        exact ⟨c :: core, rfl, .plain hplain hcore⟩

theorem unquote_ofList (chars : List Char) :
    unquote (String.ofList ('"' :: chars)) =
      String.ofList (unescape (if chars.getLast? = some '"' then chars.dropLast else chars)) := by
  have hfront : (String.ofList ('"' :: chars)).front? == some '"' := by
    rw [String.front?_eq, String.toList_ofList]
    rfl
  have hdropped : ((String.ofList ('"' :: chars)).drop 1).copy.toList = chars := by
    rw [String.toList_copy_drop, String.toList_ofList]
    rfl
  rw [unquote, if_pos hfront, dropFinalQuote, String.back?_eq, hdropped]
  split
  next hquote =>
    rw [if_pos (beq_iff_eq.mp hquote), String.toList_copy_dropEnd, hdropped, List.dropLast_eq_take]
  next hquote => rw [if_neg (fun hlast => hquote (beq_iff_eq.mpr hlast)), hdropped]

end Value

theorem Text.append_inj_of_byteLength {first first' second second' : List Char}
    (happend : first ++ second = first' ++ second')
    (hlength : byteLength first = byteLength first') : first = first' ∧ second = second' := by
  have hempty {more : List Char} (hnone : byteLength more = 0) : more = [] :=
    List.length_eq_zero_iff.mp (Nat.le_zero.mp (hnone ▸ length_le_byteLength more))
  rcases List.append_eq_append_iff.mp happend with ⟨more, rfl, rfl⟩ | ⟨more, rfl, rfl⟩
  · rw [byteLength_append] at hlength
    obtain rfl := hempty (Nat.left_eq_add.mp hlength)
    exact ⟨(List.append_nil _).symm, rfl⟩
  · rw [byteLength_append] at hlength
    obtain rfl := hempty (Nat.add_eq_left.mp hlength)
    exact ⟨List.append_nil _, rfl⟩

namespace Token

theorem kind_ofWord_ne (start : Nat) (text : String) : (ofWord start text).kind ≠ .quoted := by
  rw [ofWord]
  split
  · split <;> simp
  · simp

/-! ## Where literals end -/

/-- The text of a literal, with the closing quote or without it. -/
def literalText (closed : Bool) (inside : List Char) : String :=
  String.ofList ('"' :: if closed then inside ++ ['"'] else inside)

/-- The characters of a script that stand between the quotes of a literal, when the opening quote is
`start` bytes into it. They go to the next quote that is not escaped or, where there is none, to the
end of the script. -/
inductive Encloses (chars : List Char) (start : Nat) : Bool → List Char → Prop
  | closed {before inside after : List Char}
      (hchars : chars = before ++ '"' :: (inside ++ '"' :: after))
      (hstart : Text.byteLength before = start) (hstate : escapeState false inside = some false) :
      Encloses chars start true inside
  | unclosed {before inside : List Char} {escaped : Bool} (hchars : chars = before ++ '"' :: inside)
      (hstart : Text.byteLength before = start) (hstate : escapeState false inside = some escaped) :
      Encloses chars start false inside

namespace Encloses

variable {chars : List Char} {start : Nat} {closed : Bool} {inside : List Char}

theorem append (hencloses : Encloses chars start closed inside) (front : List Char) :
    Encloses (front ++ chars) (Text.byteLength front + start) closed inside := by
  cases hencloses with
  | @closed before _ after hchars hstart hstate =>
      have hchars' : front ++ chars = (front ++ before) ++ '"' :: (inside ++ '"' :: after) := by
        rw [hchars, List.append_assoc]
      exact .closed hchars' (by rw [Text.byteLength_append, hstart]) hstate
  | @unclosed before _ escaped hchars hstart hstate =>
      have hchars' : front ++ chars = (front ++ before) ++ '"' :: inside := by
        rw [hchars, List.append_assoc]
      exact .unclosed hchars' (by rw [Text.byteLength_append, hstart]) hstate

/-- What stands behind the characters between the quotes. No quote among these characters closes the
literal. -/
theorem exists_rest (hencloses : Encloses chars start closed inside) :
    ∃ before rest, chars = before ++ '"' :: (inside ++ rest) ∧ Text.byteLength before = start ∧
      escapeState false inside ≠ none ∧
      (closed = true ∧ escapeState false inside = some false ∧ rest.head? = some '"' ∨
        closed = false ∧ rest = []) := by
  cases hencloses with
  | closed hchars hstart hstate =>
      exact ⟨_, _, hchars, hstart, by simp [hstate], .inl ⟨rfl, hstate, rfl⟩⟩
  | unclosed hchars hstart hstate =>
      exact ⟨_, [], by rw [hchars, List.append_nil], hstart, by simp [hstate], .inr ⟨rfl, rfl⟩⟩

/-- A literal does not go on behind its end. -/
theorem eq_nil_of_append {more rest : List Char} (hmore : escapeState false (inside ++ more) ≠ none)
    (hrest : closed = true ∧ escapeState false inside = some false ∧
        (more ++ rest).head? = some '"' ∨ closed = false ∧ more ++ rest = []) : more = [] := by
  cases more with
  | nil => rfl
  | cons c more =>
      rcases hrest with ⟨-, hstate, hquote⟩ | ⟨-, hnone⟩
      · obtain rfl : c = '"' := Option.some.inj hquote
        rw [escapeState_append, hstate] at hmore
        exact absurd rfl hmore
      · cases hnone

theorem unique {closed' : Bool} {inside' : List Char}
    (hencloses : Encloses chars start closed inside)
    (hencloses' : Encloses chars start closed' inside') : closed' = closed ∧ inside' = inside := by
  obtain ⟨before, rest, hchars, hstart, hstate, hrest⟩ := hencloses.exists_rest
  obtain ⟨before', rest', hchars', hstart', hstate', hrest'⟩ := hencloses'.exists_rest
  obtain ⟨rfl, htail⟩ := Text.append_inj_of_byteLength (hchars.symm.trans hchars')
    (hstart.trans hstart'.symm)
  have hinside : inside = inside' ∧ rest = rest' := by
    rcases List.append_eq_append_iff.mp (List.cons.inj htail).2 with
      ⟨more, rfl, rfl⟩ | ⟨more, rfl, rfl⟩
    · obtain rfl := eq_nil_of_append hstate' hrest
      exact ⟨(List.append_nil _).symm, rfl⟩
    · obtain rfl := eq_nil_of_append hstate hrest'
      exact ⟨List.append_nil _, rfl⟩
  obtain ⟨rfl, rfl⟩ := hinside
  refine ⟨?_, rfl⟩
  rcases hrest with ⟨rfl, -, hquote⟩ | ⟨rfl, rfl⟩
  · rcases hrest' with ⟨rfl, -, -⟩ | ⟨-, rfl⟩
    · rfl
    · cases hquote
  · rcases hrest' with ⟨-, -, hquote⟩ | ⟨rfl, -⟩
    · cases hquote
    · rfl

end Encloses

/-- Each literal of a script is read from its opening quote to where it ends. -/
theorem Pieces.exists_encloses {offset : Nat} {chars : List Char} {tokens : List Token}
    (hpieces : Pieces offset chars tokens) {token : Token} (hmem : token ∈ tokens)
    (hkind : token.kind = .quoted) :
    ∃ start closed inside, Encloses chars start closed inside ∧
      token = ofQuote (offset + start) (literalText closed inside) := by
  induction hpieces with
  | nil => cases hmem
  | @blank offset c chars tokens hblank hrest ih =>
      obtain ⟨start, closed, inside, hencloses, htoken⟩ := ih hmem
      refine ⟨_, closed, inside, hencloses.append [c], ?_⟩
      rw [htoken, Text.byteLength, Text.byteLength, Nat.add_zero, Nat.add_assoc]
  | @lexeme offset piece chars first tokens hlexeme hrest ih =>
      rcases List.mem_cons.mp hmem with rfl | hmem
      · cases hlexeme with
        | comma => cases hkind
        | close => cases hkind
        | word => exact absurd hkind (kind_ofWord_ne _ _)
        | opening => exact absurd hkind (kind_ofWord_ne _ _)
        | @quoted inside hstate =>
            have hencloses : Encloses ('"' :: (inside ++ ['"']) ++ chars) 0 true inside :=
              @Encloses.closed _ _ [] inside chars (by simp) rfl hstate
            exact ⟨0, true, inside, hencloses, rfl⟩
      · obtain ⟨start, closed, inside, hencloses, htoken⟩ := ih hmem
        refine ⟨_, closed, inside, hencloses.append piece, ?_⟩
        rw [htoken, Nat.add_assoc]
  | @unclosed offset inside escaped hstate =>
      rw [List.mem_singleton.mp hmem]
      have hencloses : Encloses ('"' :: inside) 0 false inside :=
        @Encloses.unclosed _ _ [] inside escaped rfl rfl hstate
      exact ⟨0, false, inside, hencloses, rfl⟩

/-- Dropping the closing quote leaves the characters between the quotes. -/
theorem decodes_unquote_closed (inside : List Char) :
    Value.Decodes inside (Value.unquote (literalText true inside)).toList := by
  rw [literalText, if_pos rfl, Value.unquote_ofList, if_pos (by simp), List.dropLast_concat,
    String.toList_ofList]
  exact Value.decodes_unescape inside

/-- Without a quote at the end nothing is dropped there. -/
theorem decodes_unquote_unclosed {inside : List Char} (hlast : inside.getLast? ≠ some '"') :
    Value.Decodes inside (Value.unquote (literalText false inside)).toList := by
  rw [literalText, if_neg Bool.false_ne_true, Value.unquote_ofList, if_neg hlast,
    String.toList_ofList]
  exact Value.decodes_unescape inside

/-- A quote at the end that does not close the literal is escaped, and is dropped all the same. -/
theorem exists_decodes_unclosed {inside : List Char} {escaped : Bool}
    (hstate : escapeState false inside = some escaped) (hlast : inside.getLast? = some '"') :
    ∃ core, Value.Decodes inside (core ++ ['"']) ∧
      (Value.unquote (literalText false inside)).toList = core ++ ['\\'] := by
  obtain ⟨more, rfl⟩ := List.getLast?_eq_some_iff.mp hlast
  rw [escapeState_append, Option.bind_eq_some_iff] at hstate
  obtain ⟨middle, hmore, hquote⟩ := hstate
  obtain rfl : middle = true := by
    cases middle with
    | true => rfl
    | false => cases hquote
  obtain ⟨core, hdecoded, hcore⟩ := (Value.decodes_unescape more).of_escapeState hmore
  refine ⟨core, hcore, ?_⟩
  rw [literalText, if_neg Bool.false_ne_true, Value.unquote_ofList, if_pos hlast,
    List.dropLast_concat, String.toList_ofList, hdecoded]

/-- A quoted token consists of the opening quote, the characters of the literal and the closing
quote, if there is one. The place of the token settles which characters these are. Decoding the
token decodes all of them, except where the closing quote is missing and the last character is an
escaped quote: it is dropped, and the backslash in front of it is kept. -/
theorem unquote_decodes_enclosed {script : String} {token : Token} (hmem : token ∈ scan script)
    (hkind : token.kind = .quoted) :
    ∃ closed inside, Encloses script.toList token.span.start closed inside ∧
      (∀ closed' inside', Encloses script.toList token.span.start closed' inside' →
        closed' = closed ∧ inside' = inside) ∧
      token.text = literalText closed inside ∧
      if closed = false ∧ inside.getLast? = some '"' then
        ∃ core, Value.Decodes inside (core ++ ['"']) ∧
          (Value.unquote token.text).toList = core ++ ['\\']
      else Value.Decodes inside (Value.unquote token.text).toList := by
  obtain ⟨start, closed, inside, hencloses, rfl⟩ :=
    (Scanner.scan_pieces script).exists_encloses hmem hkind
  rw [Nat.zero_add]
  refine ⟨closed, inside, hencloses, fun _ _ => hencloses.unique, rfl, ?_⟩
  cases hencloses with
  | closed =>
      rw [if_neg (by simp)]
      exact decodes_unquote_closed inside
  | unclosed _ _ hstate =>
      split
      next hlast => exact exists_decodes_unclosed hstate hlast.2
      next hlast => exact decodes_unquote_unclosed fun hquote => hlast ⟨rfl, hquote⟩

/-- A closed literal with an escaped quote and an escape that is kept. -/
theorem unquote_decodes_closed_literal :
    let script := "@write(\"a\\\"\\n\")"
    let token : Token := ⟨.quoted, "\"a\\\"\\n\"", ⟨7, 7⟩⟩
    token ∈ scan script ∧ token.kind = .quoted ∧
      Encloses script.toList 7 true "a\\\"\\n".toList ∧
      Value.Decodes "a\\\"\\n".toList "a\"\\n".toList ∧
      Value.unquote token.text = "a\"\\n" := by
  intro script token
  have hmem : token ∈ scan script := by decide +kernel
  obtain ⟨closed, inside, hencloses, hunique, htext, hdecodes⟩ := unquote_decodes_enclosed hmem rfl
  have hclosed : Encloses script.toList 7 true "a\\\"\\n".toList :=
    @Encloses.closed _ _ "@write(".toList _ [')'] (by decide +kernel) (by decide +kernel)
      (by decide +kernel)
  obtain ⟨rfl, rfl⟩ := hunique _ _ hclosed
  have hvalue : Value.unquote token.text = "a\"\\n" := by decide +kernel
  rw [hvalue] at hdecodes
  exact ⟨hmem, rfl, hclosed, hdecodes, hvalue⟩

/-- Without the closing quote, an escaped quote at the end is not decoded. -/
theorem unquote_drops_escaped_quote :
    let script := "\"a\\\""
    let token : Token := ⟨.quoted, script, ⟨0, 4⟩⟩
    token ∈ scan script ∧ token.kind = .quoted ∧
      Encloses script.toList 0 false ['a', '\\', '"'] ∧
      Value.Decodes ['a', '\\', '"'] ['a', '"'] ∧ Value.unquote token.text = "a\\" ∧
      ¬ Value.Decodes ['a', '\\', '"'] (Value.unquote token.text).toList := by
  intro script token
  have hunclosed : Encloses script.toList 0 false ['a', '\\', '"'] :=
    @Encloses.unclosed _ _ [] _ _ (by decide +kernel) rfl rfl
  have hdecodes : Value.Decodes ['a', '\\', '"'] ['a', '"'] :=
    .plain (by decide) (.escaped (.inl rfl) .nil)
  have hvalue : Value.unquote token.text = "a\\" := by decide +kernel
  refine ⟨by decide +kernel, rfl, hunclosed, hdecodes, hvalue, fun hdecoded => ?_⟩
  rw [hvalue] at hdecoded
  exact absurd (hdecodes.unescape_eq.symm.trans hdecoded.unescape_eq) (by decide +kernel)

end Token

end AtScript
