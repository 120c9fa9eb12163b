import WordScript.Arena
import WordScript.Bindings
import WordScript.Builtin
import WordScript.Command
import WordScript.CommandLine
import WordScript.Evaluation
import WordScript.Evaluation.Block
import WordScript.Evaluation.Builtin
import WordScript.Evaluation.Declaration
import WordScript.Evaluation.Group
import WordScript.Expression
import WordScript.Extension.Directive
import WordScript.Extension.Function
import WordScript.FileTree
import WordScript.Handle
import WordScript.Identifier
import WordScript.Identifier.Cast
import WordScript.Identifier.Operators
import WordScript.Library
import WordScript.Machine
import WordScript.Main
import WordScript.Number.Double
import WordScript.Number.Double.Reading
import WordScript.Number.Double.Shortest
import WordScript.Number.Numeral
import WordScript.Operation
import WordScript.Program
import WordScript.Proofs.Acceptance
import WordScript.Proofs.Arena
import WordScript.Proofs.Assignments
import WordScript.Proofs.Balance
import WordScript.Proofs.BareWords
import WordScript.Proofs.BlankLines
import WordScript.Proofs.Chains
import WordScript.Proofs.Closure
import WordScript.Proofs.Comparing
import WordScript.Proofs.Composing
import WordScript.Proofs.Concatenation
import WordScript.Proofs.Contract
import WordScript.Proofs.Coupling
import WordScript.Proofs.Declarable
import WordScript.Proofs.Declaring
import WordScript.Proofs.Elementwise
import WordScript.Proofs.Environment
import WordScript.Proofs.Evaluation
import WordScript.Proofs.Extensions
import WordScript.Proofs.Failing
import WordScript.Proofs.Freeing
import WordScript.Proofs.Grammar
import WordScript.Proofs.Growth
import WordScript.Proofs.Handles
import WordScript.Proofs.InPlace
import WordScript.Proofs.Increments
import WordScript.Proofs.Indentation
import WordScript.Proofs.Indexing
import WordScript.Proofs.Infix
import WordScript.Proofs.Innermost
import WordScript.Proofs.Insertion
import WordScript.Proofs.Involved
import WordScript.Proofs.Isolation
import WordScript.Proofs.Journal
import WordScript.Proofs.Journeys
import WordScript.Proofs.Ladders
import WordScript.Proofs.Lawful
import WordScript.Proofs.Layout
import WordScript.Proofs.Leaves
import WordScript.Proofs.Lexing
import WordScript.Proofs.LifeCycle
import WordScript.Proofs.Limits
import WordScript.Proofs.Literals
import WordScript.Proofs.Liveness
import WordScript.Proofs.Locating
import WordScript.Proofs.Members
import WordScript.Proofs.Merging
import WordScript.Proofs.Names
import WordScript.Proofs.Nesting
import WordScript.Proofs.Numerals
import WordScript.Proofs.NumericTexts
import WordScript.Proofs.Operators
import WordScript.Proofs.Ownership
import WordScript.Proofs.Patterns
import WordScript.Proofs.Permanence
import WordScript.Proofs.Pieces
import WordScript.Proofs.Placing
import WordScript.Proofs.Printing
import WordScript.Proofs.Programs
import WordScript.Proofs.Reached
import WordScript.Proofs.Reading
import WordScript.Proofs.Recording
import WordScript.Proofs.Refusals
import WordScript.Proofs.Relaying
import WordScript.Proofs.Renaming
import WordScript.Proofs.Requests
import WordScript.Proofs.Resolving
import WordScript.Proofs.Revising
import WordScript.Proofs.RoundTrip
import WordScript.Proofs.Rounding
import WordScript.Proofs.Running
import WordScript.Proofs.Scopes
import WordScript.Proofs.Sequence
import WordScript.Proofs.SideBySide
import WordScript.Proofs.Simulation
import WordScript.Proofs.Spacing
import WordScript.Proofs.Standing
import WordScript.Proofs.Stowing
import WordScript.Proofs.Targets
import WordScript.Proofs.Teardown
import WordScript.Proofs.Termination
import WordScript.Proofs.Tiling
import WordScript.Proofs.Trace
import WordScript.Proofs.Truncation
import WordScript.Proofs.Twins
import WordScript.Proofs.Typing
import WordScript.Proofs.Uniform
import WordScript.Proofs.Unobservable
import WordScript.Proofs.Updates
import WordScript.Proofs.ValueLeaves
import WordScript.Proofs.Values
import WordScript.Proofs.Wrapping
import WordScript.Proofs.Written
import WordScript.RuntimeError
import WordScript.Scopes
import WordScript.Session
import WordScript.Sink
import WordScript.Statement.Reading
import WordScript.Store
import WordScript.SyntaxError
import WordScript.Text.Blank
import WordScript.Text.Json
import WordScript.Text.Quoted
import WordScript.Text.Span
import WordScript.Text.Split
import WordScript.Text.Unprintable
import WordScript.Token
import WordScript.Token.Lexeme
import WordScript.Tree
import WordScript.Value
import WordScript.Vocabulary
