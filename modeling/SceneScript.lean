import SceneScript.Bisection
import SceneScript.Command.Arguments
import SceneScript.Command.Files
import SceneScript.Command.Log
import SceneScript.Command.Run
import SceneScript.Eval.Call
import SceneScript.Eval.Fault
import SceneScript.Eval.Node
import SceneScript.Eval.Operation
import SceneScript.Eval.Run
import SceneScript.Grammar.Automaton
import SceneScript.Grammar.Derivation
import SceneScript.Grammar.Engine
import SceneScript.Grammar.Lexeme
import SceneScript.Grammar.Rule
import SceneScript.Grammar.Symbol
import SceneScript.Json.Arithmetic
import SceneScript.Json.Basic
import SceneScript.Json.Describe
import SceneScript.Json.Printer
import SceneScript.Json.Reader
import SceneScript.Main
import SceneScript.Node.Basic
import SceneScript.Node.Json
import SceneScript.Number.Binary64
import SceneScript.Number.Numeral
import SceneScript.Number.Power
import SceneScript.Number.Shortest
import SceneScript.Number.Text
import SceneScript.Parse.Fault
import SceneScript.Parse.Frame
import SceneScript.Parse.Precedence
import SceneScript.Proofs.Parse.Reading
import SceneScript.Size
import SceneScript.Source.Describe
import SceneScript.Source.Excerpt
import SceneScript.Source.Lines
import SceneScript.Source.Place
import SceneScript.Source.Position
import SceneScript.Text.Blank
import SceneScript.Text.Decimal
import SceneScript.Text.Order
import SceneScript.Text.Printable
import SceneScript.Text.Quoted
import SceneScript.Token.Basic
import SceneScript.Token.Fault
import SceneScript.Token.Literal
import SceneScript.Token.Scanner
import SceneScript.Value.Builtin
import SceneScript.Value.Context
import SceneScript.Value.Repetition
import SceneScript.Value.Scene
import SceneScript.Value.Store
import SceneScript.Value.View
import SceneScript.Proofs.Parse.Completeness
import SceneScript.Proofs.Parse.Moves
import SceneScript.Proofs.Parse.Soundness
import SceneScript.Proofs.Ebnf.Derivations
import SceneScript.Proofs.Ebnf.Predictive
import SceneScript.Proofs.Eval.Frame
import SceneScript.Proofs.FrontEnds
import SceneScript.Proofs.Parse.Accepted
import SceneScript.Proofs.Parse.Rendering
import SceneScript.Proofs.Json.Numbers
import SceneScript.Proofs.Json.Strings
import SceneScript.Proofs.Node.Json
import SceneScript.Proofs.Node.NormalForm
import SceneScript.Proofs.Node.Order
import SceneScript.Proofs.Node.Places
import SceneScript.Proofs.Eval.Making
import SceneScript.Proofs.Value.References
import SceneScript.Proofs.Eval.Performance
import SceneScript.Proofs.Eval.Secrecy
import SceneScript.Proofs.Parse.Shape
import SceneScript.Proofs.Eval.Trace
import SceneScript.Proofs.Eval.Effects
import SceneScript.Proofs.Eval.Variables
import SceneScript.Proofs.Value.Datum
import SceneScript.Proofs.Eval.Activation
import SceneScript.Proofs.Eval.Agreement
import SceneScript.Proofs.Eval.Independence
import SceneScript.Proofs.Parse.Faults
import SceneScript.Proofs.Eval.Blame
import SceneScript.Proofs.Diagnostics
import SceneScript.Proofs.Token.Words
import SceneScript.Proofs.Token.Tiling
import SceneScript.Proofs.Token.Languages
import SceneScript.Proofs.Parse.Evaluable
import SceneScript.Proofs.Eval.Safety
import SceneScript.Proofs.Grammar.Viability
import SceneScript.Proofs.Parse.Completion
import SceneScript.Proofs.Token.Joining
import SceneScript.Proofs.Parse.Admissible
import SceneScript.Proofs.ValidPrefix
import SceneScript.Proofs.Parse.Brackets
import SceneScript.Proofs.EndOfText
import SceneScript.Proofs.Eval.Stamps
import SceneScript.Proofs.Token.Spacing
import SceneScript.Proofs.Parse.MapPlaces
import SceneScript.Proofs.Parse.Spacing
import SceneScript.Proofs.Json.RoundTrip
import SceneScript.Proofs.Node.Text
import SceneScript.Proofs.Node.Shift
import SceneScript.Proofs.Token.Concatenation
import SceneScript.Proofs.Parse.Concatenation
import SceneScript.Proofs.Value.Mirror
import SceneScript.Proofs.Command.Files
import SceneScript.Proofs.Command.Trees
import SceneScript.Proofs.Eval.Tracking
import SceneScript.Proofs.Eval.Relocation
import SceneScript.Proofs.Composition
import SceneScript.Proofs.Eval.Course
import SceneScript.Proofs.Eval.Steps
import SceneScript.Proofs.Eval.Positions
import SceneScript.Proofs.Eval.Requests
import SceneScript.Proofs.Eval.History
import SceneScript.Proofs.Eval.Colors
import SceneScript.Proofs.Parse.Fidelity
import SceneScript.Proofs.Source.Excerpts
import SceneScript.Proofs.Number.Magnitudes
import SceneScript.Proofs.Number.Shortest
import SceneScript.Proofs.Number.Decimals
import SceneScript.Proofs.Number.Floats
import SceneScript.Proofs.Number.Integers
import SceneScript.Proofs.Json.Grammar
import SceneScript.Proofs.Json.Unquoted
import SceneScript.Proofs.Json.Documents
import SceneScript.Proofs.Command.SceneDump
import SceneScript.Proofs.Eval.Sessions
