import AtScript.Keyword.Table

/-! # The keyword reference

A text that lists every keyword with its parameters under the heading of its section.
-/

namespace AtScript.Keyword

/-- The line that shows how a keyword is written. -/
def signature (keyword : Keyword) : String :=
  match keyword.entry.form with
  | .call => "   " ++ keyword.spelling ++ keyword.entry.params ++ ")\n"
  | .bare | .either => "   " ++ keyword.spelling ++ "\n"

/-- The lines for some keywords that follow one of section `current`. A section starts with its
heading, and a blank line stands between sections. -/
def referenceFrom : Option Group → List Keyword → String
  | _, [] => ""
  | current, keyword :: rest =>
    let group := keyword.entry.group
    let heading :=
      if current = some group then ""
      else (if current.isSome then "\n" else "") ++ group.title ++ ":\n"
    heading ++ keyword.signature ++ referenceFrom (some group) rest

/-- The reference of all keywords. -/
def reference : String :=
  referenceFrom none all

end AtScript.Keyword
