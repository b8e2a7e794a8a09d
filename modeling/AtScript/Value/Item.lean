import AtScript.Text.Replace
import AtScript.Value.Basic

/-! # Single items

The value of an array cell is kept as one item: on one line and without commas.
-/

namespace AtScript.Value

/-- What an item holds in place of a comma. -/
def commaEscape : String := "\\x2C"

/-- A text made fit to be an item. Blank text becomes the null text. -/
def packItem (text : String) : String :=
  if Text.isBlank text then null
  else
    let flat := Text.replaceAll text "," commaEscape
    Text.replaceAll (Text.replaceAll flat "\r\n" lineBreak) "\n" lineBreak

/-- The text that an item stands for. -/
def unpackItem (item : String) : String :=
  if isNull item then ""
  else Text.replaceAll (Text.replaceAll item commaEscape ",") lineBreak "\n"

end AtScript.Value
