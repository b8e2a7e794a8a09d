import AtScript.Text.Ascii
import AtScript.Text.CaseTable
import AtScript.Text.CaseContext

/-! # Lower and upper case of whole texts

The full case mappings of Unicode. One character may become several, and a capital sigma becomes a
final sigma at the end of a word, so the lower case of a character depends on its neighbours.
-/

namespace AtScript.Text

/-- The character that a table of ranges assigns, or the character itself. Only the first range that
does not end before the character can list it. -/
def shiftChar (ranges : List CaseRange) (c : Char) : Char :=
  match ranges.find? (c.toNat ≤ ·.last) with
  | some range =>
    if range.lists c.toNat then Char.ofNat (c.toNat + range.shift).toNat else c
  | none => c

/-- The lower case of a character away from any context. -/
def lowerChar (c : Char) : List Char :=
  if c.toNat < 128 then [c.toLower]
  else if c = 'İ' then ['i', '\u0307']
  else [shiftChar lowerRanges c]

def upperChar (c : Char) : List Char :=
  if c.toNat < 128 then [c.toUpper]
  else match upperSequences.find? (c.toNat ≤ ·.1) with
    | some (code, codes) =>
      if code = c.toNat then codes.map Char.ofNat else [shiftChar upperRanges c]
    | none => [shiftChar upperRanges c]

/-- The lower case of some characters that follow `before`, which is given from its end. -/
def lowerFrom : List Char → List Char → List Char
  | _, [] => []
  | before, c :: rest =>
    let mapped :=
      if c = 'Σ' then [if meetsCased before && !meetsCased rest then 'ς' else 'σ']
      else lowerChar c
    mapped ++ lowerFrom (c :: before) rest

/-- A text in lower case. ASCII letters have no context. -/
def lower (text : String) : String :=
  if isAscii text then text.map Char.toLower
  else String.ofList (lowerFrom [] text.toList)

def upper (text : String) : String :=
  if isAscii text then text.map Char.toUpper
  else String.ofList (text.toList.flatMap upperChar)

theorem lowerFrom_eq_map {chars : List Char} (hascii : ∀ c ∈ chars, c.toNat < 128)
    (before : List Char) : lowerFrom before chars = chars.map Char.toLower := by
  induction chars generalizing before with
  | nil => rfl
  | cons c rest ih =>
    have hc := hascii c List.mem_cons_self
    have hsigma : c ≠ 'Σ' := by
      rintro rfl
      exact absurd hc (by decide)
    rw [lowerFrom, if_neg hsigma, lowerChar, if_pos hc,
      ih fun d hd => hascii d (List.mem_cons_of_mem c hd)]
    rfl

theorem flatMap_upperChar_eq_map {chars : List Char} (hascii : ∀ c ∈ chars, c.toNat < 128) :
    chars.flatMap upperChar = chars.map Char.toUpper := by
  induction chars with
  | nil => rfl
  | cons c rest ih =>
    rw [List.flatMap_cons, List.map_cons, upperChar, if_pos (hascii c List.mem_cons_self),
      ih fun d hd => hascii d (List.mem_cons_of_mem c hd)]
    rfl

/-- The lower case of a text is that of its characters in their context. -/
theorem toList_lower (text : String) : (lower text).toList = lowerFrom [] text.toList := by
  rw [lower]
  split
  next hascii => rw [String.toList_map, lowerFrom_eq_map (forall_lt_of_isAscii hascii)]
  · rw [String.toList_ofList]

/-- The upper case of a text is that of its characters. -/
theorem toList_upper (text : String) : (upper text).toList = text.toList.flatMap upperChar := by
  rw [upper]
  split
  next hascii =>
    rw [String.toList_map, flatMap_upperChar_eq_map (forall_lt_of_isAscii hascii)]
  · rw [String.toList_ofList]

end AtScript.Text
