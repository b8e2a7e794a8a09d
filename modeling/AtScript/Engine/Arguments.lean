import AtScript.Engine.Script

/-! # Arguments

The arguments of a call are evaluated from left to right before the call itself. An argument is made
of literals and commands, whose texts are joined.
-/

namespace AtScript.Exec

variable {S : Type}

/-- Evaluates the parts of the call that `opener` opens, up to its closing parenthesis, in at most
`budget` steps. `part` is the text of the argument at hand, and `begun` tells whether the call has
anything between its parentheses. The result is the remaining arguments, `part` included, and the
tokens after the call. -/
def argumentsFrom (run : Runner S) (opener : Token) :
    Nat → String → Bool → List Token → Exec S (List String × List Token)
  | 0, _, _, _ => throw .outOfFuel
  | _ + 1, _, _, [] => fail (.imbalance .unclosedParenthesis) opener.span
  | budget + 1, part, begun, token :: rest =>
    match token.role with
    | .comma => do
      let (others, after) ← argumentsFrom run opener budget "" true rest
      return (part :: others, after)
    | .close => return (if begun then [part] else [], rest)
    | .literal value => argumentsFrom run opener budget (part ++ value) true rest
    | .keyword keyword =>
      if keyword.isControl then fail (.unexpectedToken token.text) token.span
      else do
        let (after, text) ← capture (run (token :: rest))
        argumentsFrom run opener budget (part ++ text) true after
    | .stored => do
      let (after, text) ← capture (run (token :: rest))
      argumentsFrom run opener budget (part ++ text) true after

/-- Evaluates the arguments of a command, from left to right, in at most `budget` steps. A command
that is not a call has none. -/
def arguments (budget : Nat) (run : Runner S) (command : Token) (rest : List Token) :
    Exec S (List String × List Token) :=
  if command.kind = .call then argumentsFrom run command budget "" false rest
  else return ([], rest)

/-- Fails unless a command takes the number of arguments it was given. -/
def checkArity (command : Token) (arity : Arity) (found : Nat) : Exec S Unit :=
  if arity.accepts found then return ()
  else fail (.argumentCount command.text arity found) command.span

end AtScript.Exec
