import AtScript.Value.Basic
import AtScript.Value.Literal

/-! # Packed lists

A list of texts is kept in one value, as in `[a,b,"c d"]`. Items that a reader could mistake are
quoted and blank ones are written as the null text. Reading is more liberal than writing: the outer
brackets may be missing and white space outside quotes is ignored.
-/

namespace AtScript.PackedList

/-- Where the reader stands in an item. -/
inductive Place where
  /-- Outside quotes. -/
  | bare
  /-- Between quotes. -/
  | quoted
  /-- Between quotes, just after a backslash. -/
  | escaped
deriving Repr, DecidableEq

/-- The item that some characters make up. Only an item that was never quoted can be the null
text. -/
def finishItem (wasQuoted : Bool) (item : String) : String :=
  if !wasQuoted && Text.sameIgnoringCase item Value.null then "" else item

/-- Reads items separated by commas, after those in `done`, which stand from the last to the first.
`item` holds the characters of the item at hand and `wasQuoted` tells whether it has had its
quotes. -/
def readItems (done : List String) :
    Place → Bool → String → List Char → Except ValueError (List String)
  | _, wasQuoted, item, [] => .ok (finishItem wasQuoted item :: done).reverse
  | .escaped, wasQuoted, item, c :: rest => readItems done .quoted wasQuoted (item.push c) rest
  | .quoted, wasQuoted, item, c :: rest =>
    if c = '\\' then readItems done .escaped wasQuoted item rest
    else if c = '"' then readItems done .bare wasQuoted item rest
    else readItems done .quoted wasQuoted (item.push c) rest
  | .bare, wasQuoted, item, c :: rest =>
    if c = ',' then readItems (finishItem wasQuoted item :: done) .bare false "" rest
    else if c = '"' ∧ item.isEmpty ∧ !wasQuoted then readItems done .quoted true item rest
    else if c = '[' ∨ c = ']' then .error (.strayCharacter c)
    else if Text.isBlankChar c then readItems done .bare wasQuoted item rest
    else readItems done .bare wasQuoted (item.push c) rest

/-- The text between the outer brackets, either of which may be missing. -/
def dropBrackets (text : String) : String :=
  let inner := if text.front? == some '[' then (text.drop 1).copy else text
  if inner.back? == some ']' then (inner.dropEnd 1).copy else inner

/-- The items of a packed list. -/
def decode (text : String) : Except ValueError (List String) :=
  let inner := dropBrackets (Text.trim text)
  if Text.isBlank inner then .ok [] else readItems [] .bare false "" inner.toList

/-- Whether a character would be mistaken outside quotes. -/
def isSpecial (c : Char) : Bool :=
  c == ',' || c == '"' || c == '\\' || c == '[' || c == ']' || Text.isBlankChar c

/-- The written form of one item. -/
def encodeItem (item : String) : String :=
  let chars := item.toList
  if chars.all Text.isBlankChar then Value.null
  else if chars.any isSpecial then Value.quote item
  else item

/-- The packed list of some items. -/
def encode (items : List String) : String :=
  "[" ++ ",".intercalate (items.map encodeItem) ++ "]"

end AtScript.PackedList
