import MiniPostScript.Main
import MiniPostScript.Program
import MiniPostScript.Value.Equality
import MiniPostScript.Proofs.Number.Nearest
import MiniPostScript.Proofs.Number.Whole
import MiniPostScript.Proofs.Number.Rounded
import MiniPostScript.Proofs.Number.Decimals
import MiniPostScript.Proofs.Number.Digits
import MiniPostScript.Proofs.Number.Difference
import MiniPostScript.Proofs.Number.Root
import MiniPostScript.Proofs.Text.Tidy
import MiniPostScript.Proofs.Value.Typed
import MiniPostScript.Proofs.Value.Bindings
import MiniPostScript.Proofs.Value.Display
import MiniPostScript.Proofs.Value.Equal
import MiniPostScript.Proofs.Token.Cut
import MiniPostScript.Proofs.Token.Form
import MiniPostScript.Proofs.Token.Balanced
import MiniPostScript.Proofs.Token.Braced
import MiniPostScript.Proofs.Token.Reread
import MiniPostScript.Proofs.Token.Integers
import MiniPostScript.Proofs.Token.Groups
import MiniPostScript.Proofs.Token.Literal
import MiniPostScript.Proofs.Token.Unbroken
import MiniPostScript.Proofs.Value.Unbroken
import MiniPostScript.Proofs.Value.ReadBack
import MiniPostScript.Proofs.Operator.Refusal
import MiniPostScript.Proofs.Operator.Deeds
import MiniPostScript.Proofs.Operator.Failure
import MiniPostScript.Proofs.Operator.Makes
import MiniPostScript.Proofs.Operator.Results
import MiniPostScript.Proofs.Operator.Operands
import MiniPostScript.Proofs.Operator.Intervals
import MiniPostScript.Proofs.Operator.Faults
import MiniPostScript.Proofs.Operator.Beneath
import MiniPostScript.Proofs.Operator.Integers
import MiniPostScript.Proofs.Operator.Division
import MiniPostScript.Proofs.Operator.Roots
import MiniPostScript.Proofs.Operator.Comparisons
import MiniPostScript.Proofs.Operator.Preorder
import MiniPostScript.Proofs.Operator.Duality
import MiniPostScript.Proofs.Operator.Divisors
import MiniPostScript.Proofs.Run.Step
import MiniPostScript.Proofs.Run.Task
import MiniPostScript.Proofs.Run.Call
import MiniPostScript.Proofs.Run.Nesting
import MiniPostScript.Proofs.Run.Frames
import MiniPostScript.Proofs.Run.Values
import MiniPostScript.Proofs.Run.Notices
import MiniPostScript.Proofs.Run.Ahead
import MiniPostScript.Proofs.Run.Recursion
import MiniPostScript.Proofs.Run.Loops
import MiniPostScript.Proofs.Run.Lockstep
import MiniPostScript.Proofs.Run.Limit
import MiniPostScript.Proofs.Run.Beneath
import MiniPostScript.Proofs.Run.Errors
import MiniPostScript.Proofs.Scopes.History
import MiniPostScript.Proofs.Lexical.Resolution
import MiniPostScript.Proofs.Lexical.Alike
import MiniPostScript.Proofs.Lexical.Isolation
import MiniPostScript.Proofs.Lexical.Flat
import MiniPostScript.Proofs.Lexical.Agreement
import MiniPostScript.Proofs.Session.Feed
import MiniPostScript.Proofs.Session.Reached
import MiniPostScript.Proofs.Lexical.Definitions
import MiniPostScript.Proofs.Session.Depth
import MiniPostScript.Proofs.Session.Shapes
import MiniPostScript.Proofs.Session.Output
import MiniPostScript.Proofs.Session.Halt
import MiniPostScript.Proofs.Session.Names
import MiniPostScript.Proofs.Session.Reset
import MiniPostScript.Proofs.Session.Begun
import MiniPostScript.Proofs.Session.Builtins
import MiniPostScript.Proofs.Session.Cut
import MiniPostScript.Proofs.Program.Answers
import MiniPostScript.Proofs.Terminal.Transcript
