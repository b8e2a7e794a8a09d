import AtScript.Keyword.Table
import AtScript.Token.Scan
import AtScript.Value.Basic

/-! # Laying out a script

A script is written again with one statement per line. The bodies of branches and loops are
indented by tabs, a condition stays on the line of its IF or ELSEIF, and nothing is put between the
tokens of a call.
-/

namespace AtScript.Layout

/-- Why a script cannot be laid out. -/
inductive LayoutError where
  /-- The level of indentation at the end is not the one at the start. -/
  | indentation (level : Int)
  /-- This many more parentheses were opened than closed. -/
  | parentheses (count : Int)
deriving Repr, DecidableEq

namespace LayoutError

/-- The sentence that reports a layout error. -/
def message : LayoutError → String
  | .indentation level => "Indent should be 1 at end of script: " ++ toString level
  | .parentheses count => "Parenthesis should be 0 at end of script: " ++ toString count

/-- The code that identifies a layout error in reports. -/
def code : LayoutError → String
  | .indentation _ => "PP001"
  | .parentheses _ => "PP002"

end LayoutError

/-- A layout in the making. -/
structure Page where
  text : String := ""
  /-- The level of the next line; lines of level one start at the margin. -/
  indent : Int := 1
  /-- Opened less closed parentheses. -/
  parentheses : Int := 0
  /-- Whether the line is the condition of a branch. -/
  inCondition : Bool := false
  /-- Whether the line is the opening of a loop. -/
  inLoopHeader : Bool := false
deriving Repr, DecidableEq

/-- Whether a keyword ends a body and so stands one level further out than that body. -/
def endsBody : Keyword → Bool
  | .branch .elseIf | .branch .elseWord | .branch .endIf | .endLoop _ => true
  | _ => false

namespace Page

/-- Moves the level out before a keyword that ends a body. -/
def outdent (page : Page) (keyword : Option Keyword) : Page :=
  if keyword.any endsBody then { page with indent := page.indent - 1 } else page

/-- What separates the next token from the text before it. -/
def separator (page : Page) : String :=
  if page.parentheses ≠ 0 then ""
  else if page.inCondition then " "
  else
    (if page.text.isEmpty then "" else "\n")
      ++ String.ofList (List.replicate (page.indent - 1).toNat '\t')

/-- Takes note of a keyword that has been written. -/
def noteKeyword (page : Page) : Option Keyword → Page
  | some (.branch .ifWord) | some (.branch .elseIf) => { page with inCondition := true }
  | some (.branch .elseWord) => { page with indent := page.indent + 1 }
  | some (.branch .thenWord) => { page with indent := page.indent + 1, inCondition := false }
  | some (.loop _) => { page with inLoopHeader := true }
  | _ => page

/-- Takes note of a parenthesis that has been written. The body of a loop starts after its header.
-/
def noteParenthesis (page : Page) (token : Token) : Page :=
  if token.opensGroup then { page with parentheses := page.parentheses + 1 }
  else if token.kind = .close then
    let page := { page with parentheses := page.parentheses - 1 }
    if page.inLoopHeader && page.parentheses == 0 then
      { page with inLoopHeader := false, indent := page.indent + 1 }
    else
      page
  else
    page

/-- Writes a token. -/
def push (page : Page) (token : Token) : Page :=
  let keyword := Keyword.ofToken? token
  let page := page.outdent keyword
  let page := { page with text := page.text ++ page.separator ++ token.text }
  (page.noteKeyword keyword).noteParenthesis token

/-- The text of a page on which everything opened was closed. -/
def finish (page : Page) : Except LayoutError String :=
  if page.indent ≠ 1 then .error (.indentation page.indent)
  else if page.parentheses ≠ 0 then .error (.parentheses page.parentheses)
  else .ok page.text

end Page

/-- Lays out a script. Text that is not a script is left alone. -/
def script (text : String) : Except LayoutError String :=
  if Value.isScript text then ((Token.scan text).foldl Page.push {}).finish
  else .ok text

end AtScript.Layout
