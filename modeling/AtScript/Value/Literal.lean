/-! # Quoted literals

Inside double quotes a backslash takes away the meaning of a following quote or backslash. Every
text can be quoted.
-/

namespace AtScript.Value

/-- Characters with a backslash before each quote and each backslash. -/
def escape (chars : List Char) : List Char :=
  chars.flatMap fun c => if c = '"' ∨ c = '\\' then ['\\', c] else [c]

/-- The quoted literal of a text. -/
def quote (text : String) : String :=
  "\"" ++ String.ofList (escape text.toList) ++ "\""

/-- Resolves an escaped quote or backslash; every other escape is kept with its backslash. -/
def unescape : List Char → List Char
  | [] => []
  | ['\\'] => ['\\']
  | '\\' :: c :: rest =>
    if c = '"' ∨ c = '\\' then c :: unescape rest else '\\' :: c :: unescape rest
  | c :: rest => c :: unescape rest

/-- A text without a final quote. -/
def dropFinalQuote (text : String) : String :=
  if text.back? == some '"' then (text.dropEnd 1).copy else text

/-- The text that a quoted literal denotes. Text that does not start with a quote denotes itself. -/
def unquote (text : String) : String :=
  if text.front? == some '"' then
    String.ofList (unescape (dropFinalQuote (text.drop 1).copy).toList)
  else
    text

end AtScript.Value
