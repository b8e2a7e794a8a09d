import AtScript.Keyword.Table

/-! # Finding the end of a block

Branches and loops are not read into a tree. Where a block ends is found by counting the openings
and the ends that follow, so that a nested block is passed over as a whole.
-/

namespace AtScript.Nesting

/-- Splits tokens at the keyword `close` that is not matched by a keyword `opening` among them: the
tokens before it and those after it. `depth` is the number of openings that are still unmatched. -/
def splitAtClose (opening close : Keyword) : Nat → List Token → Option (List Token × List Token)
  | _, [] => none
  | depth, token :: rest =>
    let found := Keyword.ofToken? token
    if found = some opening then
      (splitAtClose opening close (depth + 1) rest).map fun parts => (token :: parts.1, parts.2)
    else if found = some close then
      match depth with
      | 0 => some ([], rest)
      | depth + 1 =>
        (splitAtClose opening close depth rest).map fun parts => (token :: parts.1, parts.2)
    else
      (splitAtClose opening close depth rest).map fun parts => (token :: parts.1, parts.2)

/-- The body of a loop and the tokens after its end. -/
def loopBody? (family : LoopFamily) (tokens : List Token) : Option (List Token × List Token) :=
  splitAtClose (.loop family) (.endLoop family) 0 tokens

/-- The tokens after the end of the chain of branches that they are in. -/
def afterEndIf? (tokens : List Token) : Option (List Token) :=
  (splitAtClose (.branch .ifWord) (.branch .endIf) 0 tokens).map Prod.snd

/-- What ends a branch. -/
inductive BranchEnd where
  | elseIf | elseWord | endIf
deriving Repr, DecidableEq

/-- What ends the branch that some tokens are in, and the tokens after it. `depth` is the number of
nested chains that are still open. -/
def branchEnd? : Nat → List Token → Option (BranchEnd × List Token)
  | _, [] => none
  | depth, token :: rest =>
    match Keyword.ofToken? token, depth with
    | some (.branch .ifWord), depth => branchEnd? (depth + 1) rest
    | some (.branch .endIf), 0 => some (.endIf, rest)
    | some (.branch .endIf), depth + 1 => branchEnd? depth rest
    | some (.branch .elseIf), 0 => some (.elseIf, rest)
    | some (.branch .elseWord), 0 => some (.elseWord, rest)
    | _, depth => branchEnd? depth rest

end AtScript.Nesting
