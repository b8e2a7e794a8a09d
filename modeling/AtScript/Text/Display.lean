import AtScript.Text.Blank

/-! # Quoted display of texts

Dumps show a text between double quotes with its special characters escaped.
-/

namespace AtScript.Text

/-- The shortest hexadecimal number of a code point, between braces. -/
def codeEscape (c : Char) : String :=
  "\\u\x7b" ++ String.ofList (Nat.toDigits 16 c.toNat) ++ "\x7d"

/-- Whether a character has no visible form of its own. -/
def isHidden (c : Char) : Bool :=
  c.toNat < 0x20 || (0x7F ≤ c.toNat && c.toNat < 0xA0) || (c ≠ ' ' && isBlankChar c)

/-- A character as it is shown inside double quotes. -/
def showChar (c : Char) : String :=
  if c = '"' then "\\\""
  else if c = '\\' then "\\\\"
  else if c = '\n' then "\\n"
  else if c = '\t' then "\\t"
  else if c = '\r' then "\\r"
  else if c = '\x00' then "\\0"
  else if isHidden c then codeEscape c
  else c.toString

/-- A text as it is shown in dumps. -/
def display (text : String) : String :=
  "\"" ++ String.join (text.toList.map showChar) ++ "\""

end AtScript.Text
