import AtScript.Value.Basic
import AtScript.Value.Decimal

/-! # Values read as numbers and as truth values

White space around a value never matters, nor does the case of ASCII letters in the words that have
a meaning of their own.
-/

namespace AtScript.Value

def trueText : String := "true"

def falseText : String := "false"

/-- The integer that a text writes. No value and false count as zero, true as one. -/
def toInt (text : String) : Except ValueError Int64 :=
  let core := Text.trim text
  if core.isEmpty || Text.sameIgnoringCase core null || Text.sameIgnoringCase core falseText then
    .ok 0
  else if Text.sameIgnoringCase core trueText then
    .ok 1
  else match Decimal.int64? core.toList with
    | some value => .ok value
    | none => .error (.notNumeric text)

def trueWords : List String := [trueText, "t", "on", "yes", "y", "1", "-1"]

def falseWords : List String := [null, falseText, "f", "off", "no", "n", "0"]

/-- The truth value that a text writes. Blank text is false. -/
def toBool (text : String) : Except ValueError Bool :=
  let word := Text.foldCase (Text.trim text)
  if word.isEmpty || falseWords.contains word then
    .ok false
  else if trueWords.contains word then
    .ok true
  else
    .error (.notBoolean text)

def ofBool (value : Bool) : String :=
  if value then trueText else falseText

end AtScript.Value
