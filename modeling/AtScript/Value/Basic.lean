import AtScript.Text.Blank
import AtScript.Text.IgnoreCase

/-! # Values

Every value of a script is a text. The reserved text `null` stands for "no value", and a text whose
first character after white space is `@` is itself a script.
-/

namespace AtScript.Value

/-- The text that stands for "no value". -/
def null : String := "null"

/-- Whether a text is blank or, apart from white space and letter case, the null text. -/
def isNull (text : String) : Bool :=
  let core := Text.trim text
  core.isEmpty || Text.sameIgnoringCase core null

/-- Whether a text is a script rather than plain data. -/
def isScript (text : String) : Bool :=
  match text.front? with
  | some c =>
    c == '@' || (Text.isBlankChar c && (Text.dropBlank text.toList).head? == some '@')
  | none => false

/-- A text is a script when its first character after white space is `@`. -/
theorem isScript_eq (text : String) :
    isScript text = ((Text.dropBlank text.toList).head? == some '@') := by
  rw [isScript, String.front?_eq]
  cases text.toList with
  | nil => rfl
  | cons c rest =>
    by_cases hc : Text.isBlankChar c
    · have hat : c ≠ '@' := fun heq => absurd (heq ▸ hc) (by decide)
      simp [hc, hat]
    · simp [Text.dropBlank, hc]

/-- The two characters that scripts write in place of a line break. -/
def lineBreak : String := "\\n"

end AtScript.Value

namespace AtScript

/-- Why a text cannot be read as the value that an operation asks for. -/
inductive ValueError where
  /-- The text is not an integer. -/
  | notNumeric (text : String)
  /-- The text is not a truth value. -/
  | notBoolean (text : String)
  /-- A bracket stands inside a packed list. -/
  | strayCharacter (c : Char)
deriving Repr, DecidableEq

/-- The sentence that reports a value error. -/
def ValueError.message : ValueError → String
  | .notNumeric text => "Value is not numeric: " ++ text
  | .notBoolean text => "Value is not boolean: " ++ text
  | .strayCharacter c => "Unexpected character within list: " ++ c.toString

end AtScript
