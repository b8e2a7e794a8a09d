/-! # White space

White space is Unicode's `White_Space` property. Text that has no other characters is *blank*;
trimming removes white space from the ends of a text.
-/

namespace AtScript.Text

/-- Whether a character is white space. -/
def isBlankChar (c : Char) : Bool :=
  if c.val < 0x80 then c == ' ' || (0x09 ≤ c.val && c.val ≤ 0x0D)
  else
    c.val == 0x85 || c.val == 0xA0 || c.val == 0x1680 || (0x2000 ≤ c.val && c.val ≤ 0x200A)
      || c.val == 0x2028 || c.val == 0x2029 || c.val == 0x202F || c.val == 0x205F
      || c.val == 0x3000

/-- The characters after the leading white space. -/
def dropBlank (chars : List Char) : List Char :=
  chars.dropWhile isBlankChar

/-- The characters before the trailing white space. -/
def dropBlankEnd (chars : List Char) : List Char :=
  (chars.reverse.dropWhile isBlankChar).reverse

/-- The characters between the leading and the trailing white space. -/
def trimChars (chars : List Char) : List Char :=
  dropBlankEnd (dropBlank chars)

/-- Whether a text has white space at one of its ends. -/
def hasBlankEnd (text : String) : Bool :=
  text.front?.any isBlankChar || text.back?.any isBlankChar

/-- A text without its leading and trailing white space. -/
def trim (text : String) : String :=
  if hasBlankEnd text then String.ofList (trimChars text.toList) else text

/-- Whether a text has nothing but white space. -/
def isBlank (text : String) : Bool :=
  text.front?.all isBlankChar && text.toList.all isBlankChar

theorem dropBlank_eq_self {chars : List Char} (hfront : chars.head?.any isBlankChar = false) :
    dropBlank chars = chars := by
  cases chars with
  | nil => rfl
  | cons c rest => exact List.dropWhile_cons_of_neg (by simpa using hfront)

theorem dropBlankEnd_eq_self {chars : List Char}
    (hback : chars.getLast?.any isBlankChar = false) : dropBlankEnd chars = chars := by
  have hreverse : dropBlank chars.reverse = chars.reverse :=
    dropBlank_eq_self (by rwa [List.head?_reverse])
  rw [dropBlankEnd, ← dropBlank, hreverse, List.reverse_reverse]

/-- Trimming is trimming of the characters. -/
theorem toList_trim (text : String) : (trim text).toList = trimChars text.toList := by
  rw [trim]
  split
  · rw [String.toList_ofList]
  next hends =>
    rw [hasBlankEnd, Bool.or_eq_true, not_or, String.front?_eq, String.back?_eq] at hends
    rw [trimChars, dropBlank_eq_self (by simpa using hends.1),
      dropBlankEnd_eq_self (by simpa using hends.2)]

/-- A blank text is one whose characters are all white space. -/
theorem isBlank_eq (text : String) : isBlank text = text.toList.all isBlankChar := by
  rw [isBlank, String.front?_eq]
  cases text.toList with
  | nil => rfl
  | cons c rest => cases hc : isBlankChar c <;> simp [hc]

end AtScript.Text
