import AtScript.Check.Finding
import AtScript.Check.Script
import AtScript.CommandLine.Request
import AtScript.CommandLine.Response
import AtScript.Engine.Arguments
import AtScript.Engine.Basic
import AtScript.Engine.Call
import AtScript.Engine.Command
import AtScript.Engine.Condition
import AtScript.Engine.Error
import AtScript.Engine.Function
import AtScript.Engine.Loop
import AtScript.Engine.Nesting
import AtScript.Engine.Primitive
import AtScript.Engine.Run
import AtScript.Engine.Script
import AtScript.Engine.Summary
import AtScript.Keyword.Basic
import AtScript.Keyword.Dump
import AtScript.Keyword.Reference
import AtScript.Keyword.Table
import AtScript.Layout
import AtScript.Main
import AtScript.Random.Below
import AtScript.Random.Stream
import AtScript.Report
import AtScript.Store.Basic
import AtScript.Store.Dictionary
import AtScript.Store.Hashed
import AtScript.Store.Sorted
import AtScript.Text.Ascii
import AtScript.Text.Blank
import AtScript.Text.CaseContext
import AtScript.Text.CaseMap
import AtScript.Text.CaseTable
import AtScript.Text.Display
import AtScript.Text.IgnoreCase
import AtScript.Text.Lines
import AtScript.Text.Replace
import AtScript.Token.Basic
import AtScript.Token.Listing
import AtScript.Token.Scan
import AtScript.Value.Basic
import AtScript.Value.Cell
import AtScript.Value.Decimal
import AtScript.Value.Item
import AtScript.Value.Literal
import AtScript.Value.PackedList
import AtScript.Value.Reading
import AtScript.Proofs.Comparison
import AtScript.Proofs.Lockstep
import AtScript.Proofs.LockstepCommand
import AtScript.Proofs.Blame
import AtScript.Proofs.Branches
import AtScript.Proofs.Grammar
import AtScript.Proofs.ListCommands
import AtScript.Proofs.Soundness
import AtScript.Proofs.Unrolling
import AtScript.Proofs.PackedList
import AtScript.Proofs.Joining
import AtScript.Proofs.LayoutTokens
import AtScript.Proofs.IdleScripts
import AtScript.Proofs.Places
import AtScript.Proofs.JoinedScripts
import AtScript.Proofs.DepthLimit
import AtScript.Proofs.Spans
import AtScript.Proofs.Traces
import AtScript.Proofs.Termination
import AtScript.Proofs.Partition
import AtScript.Proofs.StoreHistory
import AtScript.Proofs.Acceptance
import AtScript.Proofs.OpenBlocks
import AtScript.Proofs.CheckedRuns
import AtScript.Proofs.TokenSlices
import AtScript.Proofs.Literals
import AtScript.Proofs.StoreLaws
import AtScript.Proofs.Decimals
import AtScript.Proofs.LiteralCalls
import AtScript.Proofs.CellKeys
import AtScript.Proofs.Items
import AtScript.Proofs.ArrayCommands
import AtScript.Proofs.StoredNames
import AtScript.Proofs.LayoutAgain
import AtScript.Proofs.LayoutProgram
import AtScript.Proofs.ByteSlices
import AtScript.Proofs.Counters
import AtScript.Proofs.Templates
import AtScript.Proofs.Guarded
import AtScript.Proofs.GuardedMachine
import AtScript.Proofs.GuardedRuns
import AtScript.Proofs.AllOrNothing
import AtScript.Proofs.Evaluation
import AtScript.Proofs.Formulas
import AtScript.Proofs.SameEntries
import AtScript.Proofs.UnorderedRuns
import AtScript.Proofs.LosslessItems
import AtScript.Proofs.Verdicts
import AtScript.Proofs.KeyLoops
import AtScript.Proofs.Replacement
import AtScript.Proofs.ParameterBinding
import AtScript.Proofs.Numerals
import AtScript.Proofs.LineNumbers
import AtScript.Proofs.Expressions
import AtScript.Proofs.Arithmetic
import AtScript.Proofs.FairDraws
import AtScript.Proofs.Placeholders
import AtScript.Proofs.QuotedTokens
import AtScript.Proofs.LetterCase
import AtScript.Proofs.FirstEnds
import AtScript.Proofs.OpenConditions
