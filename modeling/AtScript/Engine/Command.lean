import AtScript.Engine.Call
import AtScript.Engine.Condition
import AtScript.Engine.Loop

/-! # Commands

One command of any kind. Commands contain commands; the recursion is bounded by fuel, which limits
how deep they are contained and how many parts one of them has, but not how many are run.
-/

namespace AtScript.Exec

variable {S : Type} [Store S]

/-- Runs the command at the front of some tokens, given a way to run the commands it contains. None
of its lists of parts may take more than `budget` steps. An ELSEIF or ELSE is met only at the end of
a branch that was taken, so it ends the chain. -/
def commandWith (budget : Nat) (run : Runner S) : Runner S
  | [] => throw .defect
  | token :: rest =>
    match token.role with
    | .comma => fail (.unexpectedToken token.text) token.span
    | .close => fail (.imbalance .unmatchedParenthesis) token.span
    | .literal value => do
      write value
      return rest
    | .stored => storedCall budget run token rest
    | .keyword (.branch .ifWord) => chooseBranch budget run token.span rest
    | .keyword (.branch .endIf) => return rest
    | .keyword (.branch .thenWord) =>
      fail (.imbalance (.unexpected (.branch .thenWord))) token.span
    | .keyword (.branch _) =>
      match Nesting.afterEndIf? rest with
      | some after => return after
      | none => fail (.imbalance .missingEndIf) token.span
    | .keyword (.loop family) => loop budget run family token rest
    | .keyword (.connector word) =>
      fail (.imbalance (.unexpected (.connector word))) token.span
    | .keyword (.endLoop family) =>
      fail (.imbalance (.unexpected (.endLoop family))) token.span
    | .keyword keyword => builtinCall budget run keyword token rest

/-- Runs the command at the front of some tokens. Commands and scripts may be contained in one
another `fuel` deep, and the fuel that is left also bounds the parts of one command. -/
def command : Nat → Runner S
  | 0 => fun _ => throw .outOfFuel
  | fuel + 1 => commandWith fuel (command fuel)

end AtScript.Exec
