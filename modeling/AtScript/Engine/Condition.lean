import AtScript.Engine.Arguments
import AtScript.Engine.Nesting

/-! # Conditions and branches

A condition stands between IF or ELSEIF and THEN. Its parts are truth values, joined by AND and OR
and negated by NOT. The branches of a chain that are not taken are skipped by counting, never run.
-/

namespace AtScript.Exec

variable {S : Type}

/-- A condition that has been read in part. -/
structure PartialCondition where
  /-- The truth value of what has been read, if it has a part. -/
  value : Option Bool := none
  /-- The connector that waits for its right side: whether it is a conjunction. -/
  pending : Option Bool := none
  /-- Whether the next part is negated. -/
  negated : Bool := false
deriving Repr, DecidableEq

namespace PartialCondition

/-- Whether something must follow. -/
def isOpen (condition : PartialCondition) : Bool :=
  condition.pending.isSome || condition.negated

/-- Whether a further part may follow. -/
def wantsPart (condition : PartialCondition) : Bool :=
  condition.value.isNone || condition.pending.isSome

/-- Takes in the next part. Parts are joined from left to right without precedence. -/
def join (condition : PartialCondition) (part : Bool) : PartialCondition :=
  let part := part != condition.negated
  match condition.value, condition.pending with
  | some before, some true => { value := some (before && part) }
  | some before, some false => { value := some (before || part) }
  | _, _ => { value := some part }

end PartialCondition

/-- What a token means inside a condition. -/
inductive ConditionRole where
  /-- It starts a part. -/
  | part
  | negation
  | connector (conjunction : Bool)
  /-- It ends the condition. -/
  | ending
  /-- It has no place in a condition. -/
  | refused
deriving Repr, DecidableEq

/-- The role of a token inside a condition. -/
def conditionRole (token : Token) : ConditionRole :=
  match token.role with
  | .literal _ | .stored => .part
  | .comma | .close => .refused
  | .keyword (.branch .thenWord) => .ending
  | .keyword (.connector .not) => .negation
  | .keyword (.connector .and) => .connector true
  | .keyword (.connector .or) => .connector false
  | .keyword keyword => if keyword.isControl then .refused else .part

/-- Evaluates the part of a condition that starts with `token`. The result is the tokens after it
and its text. -/
def conditionPart (run : Runner S) (token : Token) (rest : List Token) :
    Exec S (List Token × String) :=
  if token.isLiteral then return (rest, token.literalValue)
  else capture (run (token :: rest))

/-- Evaluates a condition up to its THEN, in at most `budget` steps. Every part is evaluated. The
result is the truth value and the tokens after THEN. -/
def conditionFrom (run : Runner S) (ifSpan : Span) :
    Nat → PartialCondition → List Token → Exec S (Bool × List Token)
  | 0, _, _ => throw .outOfFuel
  | _ + 1, _, [] => fail (.imbalance .missingThen) ifSpan
  | budget + 1, condition, token :: rest =>
    match conditionRole token with
    | .refused => fail (.unexpectedToken token.text) token.span
    | .ending =>
      if condition.isOpen then fail (.unexpectedToken token.text) token.span
      else return (condition.value.getD false, rest)
    | .negation =>
      conditionFrom run ifSpan budget { condition with negated := !condition.negated } rest
    | .connector conjunction =>
      if condition.value.isNone || condition.isOpen then
        fail (.unexpectedToken token.text) token.span
      else
        conditionFrom run ifSpan budget { condition with pending := some conjunction } rest
    | .part =>
      if condition.wantsPart then do
        let (after, text) ← conditionPart run token rest
        let part ← ofValue token.span (Value.toBool text)
        conditionFrom run ifSpan budget (condition.join part) after
      else
        fail (.unexpectedToken token.text) token.span

/-- Evaluates a condition up to its THEN, in at most `budget` steps. -/
def condition (budget : Nat) (run : Runner S) (ifSpan : Span) (tokens : List Token) :
    Exec S (Bool × List Token) :=
  conditionFrom run ifSpan budget {} tokens

/-- Evaluates the conditions of a chain of branches until one is true, at most `count` of them. The
result is the tokens of the branch that is taken and all that follow. -/
def chooseBranchWithin (budget : Nat) (run : Runner S) (ifSpan : Span) : Nat → Runner S
  | 0, _ => throw .outOfFuel
  | count + 1, tokens => do
    let (holds, body) ← condition budget run ifSpan tokens
    if holds then return body
    else match Nesting.branchEnd? 0 body with
      | some (.elseIf, after) => chooseBranchWithin budget run ifSpan count after
      | some (.elseWord, after) => return after
      | some (.endIf, after) => return after
      | none => fail (.imbalance .missingEndIf) ifSpan

/-- Chooses a branch of a chain that has at most `budget` conditions, each of at most `budget`
steps. -/
def chooseBranch (budget : Nat) (run : Runner S) (ifSpan : Span) : Runner S :=
  chooseBranchWithin budget run ifSpan budget

end AtScript.Exec
