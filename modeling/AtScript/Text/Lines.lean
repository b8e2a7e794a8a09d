/-! # Line numbers

A line ends just after each line feed. Lines are numbered from one and located by byte offset. The
place just behind a text that does not end in a line feed still belongs to its last line; offsets
beyond that share one number, one more than the number of lines.
-/

namespace AtScript.Text

/-- The byte offsets at which the lines of some characters end, in increasing order. The first
character stands at `offset`; `begun` tells whether a line that no line feed closes would count. -/
def lineEndsFrom : Nat → Bool → List Char → List Nat
  | offset, begun, [] => if begun then [offset + 1] else []
  | offset, _, c :: rest =>
    if c = '\n' then (offset + 1) :: lineEndsFrom (offset + 1) false rest
    else lineEndsFrom (offset + c.utf8Size) true rest

/-- The byte offsets at which the lines of a text end. Text without characters is one line. -/
def lineEnds (text : String) : List Nat :=
  lineEndsFrom 0 true text.toList

/-- The line number of every offset beyond the text. -/
def maxLine (text : String) : Nat :=
  (lineEnds text).length + 1

/-- The number of the line that holds a byte offset, given where the lines end. -/
def lineNumber (ends : List Nat) (offset : Nat) : Nat :=
  ends.countP (· ≤ offset) + 1

/-- The number of the line of a text that holds a byte offset. -/
def lineAt (text : String) (offset : Nat) : Nat :=
  lineNumber (lineEnds text) offset

end AtScript.Text
