import AtScript.Check.Finding
import AtScript.Store.Basic
import AtScript.Token.Scan

/-! # Checking scripts without running them

The tokens are scanned once. An unknown command, or a branch keyword that cannot follow the one
before it, ends the scan; whether everything that was opened was also closed is known only at the
end, from the counts.
-/

namespace AtScript.Check

/-- What a scan has counted. -/
structure Tally where
  /-- Calls less closing parentheses. -/
  parentheses : Int := 0
  /-- The last branch keyword; at the start, as if a chain had just ended. -/
  last : Branch := .endIf
  ifs : Nat := 0
  elseIfs : Nat := 0
  thens : Nat := 0
  endIfs : Nat := 0
  /-- Openings less ends of loops over a range. -/
  rangeLoops : Int := 0
  /-- Openings less ends of loops over keys. -/
  keyLoops : Int := 0
  /-- Openings less ends of loops over items. -/
  itemLoops : Int := 0
deriving Repr, DecidableEq

/-- The branch keywords after which another one may stand. -/
def predecessors : Branch → List Branch
  | .ifWord | .endIf => [.thenWord, .elseWord, .endIf]
  | .thenWord => [.ifWord, .elseIf]
  | .elseIf | .elseWord => [.thenWord, .endIf]

namespace Tally

/-- Counts a token that opens or closes a parenthesis. -/
def countParenthesis (tally : Tally) (kind : TokenKind) : Tally :=
  match kind with
  | .call => { tally with parentheses := tally.parentheses + 1 }
  | .close => { tally with parentheses := tally.parentheses - 1 }
  | _ => tally

def countBranch (tally : Tally) (part : Branch) : Tally :=
  let tally := { tally with last := part }
  match part with
  | .ifWord => { tally with ifs := tally.ifs + 1 }
  | .thenWord => { tally with thens := tally.thens + 1 }
  | .elseIf => { tally with elseIfs := tally.elseIfs + 1 }
  | .endIf => { tally with endIfs := tally.endIfs + 1 }
  | .elseWord => tally

/-- Openings less ends of a family of loops. -/
def loops (tally : Tally) : LoopFamily → Int
  | .range => tally.rangeLoops
  | .keys => tally.keyLoops
  | .items => tally.itemLoops

/-- Counts an opening or, with a negative `change`, an end of a loop. -/
def countLoop (tally : Tally) (family : LoopFamily) (change : Int) : Tally :=
  match family with
  | .range => { tally with rangeLoops := tally.rangeLoops + change }
  | .keys => { tally with keyLoops := tally.keyLoops + change }
  | .items => { tally with itemLoops := tally.itemLoops + change }

def countKeyword (tally : Tally) : Keyword → Tally
  | .branch part => tally.countBranch part
  | .loop family => tally.countLoop family 1
  | .endLoop family => tally.countLoop family (-1)
  | _ => tally

/-- Whether a branch keyword may stand after the last one. -/
def admits (tally : Tally) (part : Branch) : Bool :=
  tally.last ∈ predecessors part

/-- The first balance that the counts break. -/
def imbalance? (tally : Tally) : Option FindingKind :=
  if tally.parentheses ≠ 0 then some .parentheses
  else if tally.ifs ≠ tally.endIfs then some .ifCount
  else if tally.ifs + tally.elseIfs ≠ tally.thens then some .thenCount
  else if tally.loops .range ≠ 0 then some (.loopCount .range)
  else if tally.loops .keys ≠ 0 then some (.loopCount .keys)
  else if tally.loops .items ≠ 0 then some (.loopCount .items)
  else none

end Tally

variable {S : Type} [Store S]

/-- Whether the store has the script that a command names. -/
def isStored (store : S) (command : Token) : Bool :=
  if command.kind = .call then !(Store.entriesFrom store command.text).isEmpty
  else !(Store.get store command.text).isEmpty

/-- What is wrong with a token, the `index`-th of its script, after those that have been counted. -/
def flaw? (store : S) (index : Nat) (tally : Tally) (token : Token) : Option FindingKind :=
  match Keyword.ofToken? token with
  | some (.branch part) => if tally.admits part then none else some (.misplaced part index)
  | some _ => none
  | none =>
    if token.isCommand && !isStored store token then some (.unknownCommand token.text) else none

def Tally.count (tally : Tally) (token : Token) : Tally :=
  let tally := tally.countParenthesis token.kind
  match Keyword.ofToken? token with
  | some keyword => tally.countKeyword keyword
  | none => tally

/-- Checks tokens from the `index`-th of their script on. -/
def tokensFrom (store : S) : Nat → Tally → List Token → Except Finding Unit
  | _, tally, [] =>
    match tally.imbalance? with
    | some kind => .error { kind := kind }
    | none => .ok ()
  | index, tally, token :: rest =>
    match flaw? store index tally token with
    | some kind => .error { kind := kind, span := some token.span }
    | none => tokensFrom store (index + 1) (tally.count token) rest

/-- Checks the tokens of a script. -/
def tokens (store : S) (all : List Token) : Except Finding Unit :=
  tokensFrom store 0 {} all

/-- What is wrong with a script. Blank text is fine. -/
def script (store : S) (text : String) : List Finding :=
  if Text.isBlank text then []
  else match tokens store (Token.scan text) with
    | .ok () => []
    | .error finding => [{ finding with script := some text }]

/-- What is wrong with an entry of a store. -/
def entry (store : S) (key : String) : List Finding :=
  if Text.isBlank key then [{ kind := .blankKey }]
  else
    let value := Store.get store key
    if Value.isScript value then
      (script store value).map fun finding => { finding with key := some key }
    else
      []

/-- What is wrong with the entries of a store, in its order. -/
def entries (store : S) : List Finding :=
  (Store.keys store).flatMap (entry store)

end AtScript.Check
