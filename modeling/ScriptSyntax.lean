import ScriptSyntax.CommandLine.Duration
import ScriptSyntax.CommandLine.Invocation
import ScriptSyntax.CommandLine.Run
import ScriptSyntax.Diagnostic.Basic
import ScriptSyntax.Diagnostic.Error
import ScriptSyntax.Diagnostic.Render
import ScriptSyntax.Document
import ScriptSyntax.Edit.Basic
import ScriptSyntax.Edit.Reparse
import ScriptSyntax.Main
import ScriptSyntax.Parsing.Bracket
import ScriptSyntax.Parsing.Event
import ScriptSyntax.Parsing.Expression
import ScriptSyntax.Parsing.Form
import ScriptSyntax.Parsing.Nesting
import ScriptSyntax.Parsing.Power
import ScriptSyntax.Parsing.Recovery
import ScriptSyntax.Parsing.Sequence
import ScriptSyntax.Parsing.Source
import ScriptSyntax.Parsing.State
import ScriptSyntax.Parsing.Statement
import ScriptSyntax.Parsing.Step
import ScriptSyntax.Parsing.Success
import ScriptSyntax.Position
import ScriptSyntax.Proofs.Diagnostic.Order
import ScriptSyntax.Proofs.Diagnostic.Render
import ScriptSyntax.Proofs.Edit.Apply
import ScriptSyntax.Proofs.Edit.Reparse
import ScriptSyntax.Proofs.Parsing.Accepts
import ScriptSyntax.Proofs.Parsing.Admits
import ScriptSyntax.Proofs.Parsing.Agrees
import ScriptSyntax.Proofs.Parsing.Alike
import ScriptSyntax.Proofs.Parsing.Before
import ScriptSyntax.Proofs.Parsing.Binding
import ScriptSyntax.Proofs.Parsing.Bounded
import ScriptSyntax.Proofs.Parsing.BrokenLine
import ScriptSyntax.Proofs.Parsing.Collected
import ScriptSyntax.Proofs.Parsing.Complaints
import ScriptSyntax.Proofs.Parsing.Complete
import ScriptSyntax.Proofs.Parsing.Compose
import ScriptSyntax.Proofs.Parsing.Covered
import ScriptSyntax.Proofs.Parsing.Errors
import ScriptSyntax.Proofs.Parsing.Faithful
import ScriptSyntax.Proofs.Parsing.Forward
import ScriptSyntax.Proofs.Parsing.Frame
import ScriptSyntax.Proofs.Parsing.Grammar
import ScriptSyntax.Proofs.Parsing.Levels
import ScriptSyntax.Proofs.Parsing.LexicalErrors
import ScriptSyntax.Proofs.Parsing.ListBreaks
import ScriptSyntax.Proofs.Parsing.ListComments
import ScriptSyntax.Proofs.Parsing.Local
import ScriptSyntax.Proofs.Parsing.Located
import ScriptSyntax.Proofs.Parsing.Loop
import ScriptSyntax.Proofs.Parsing.OneLine
import ScriptSyntax.Proofs.Parsing.OpenBlocks
import ScriptSyntax.Proofs.Parsing.Openings
import ScriptSyntax.Proofs.Parsing.Origin
import ScriptSyntax.Proofs.Parsing.Placed
import ScriptSyntax.Proofs.Parsing.Places
import ScriptSyntax.Proofs.Parsing.Reading
import ScriptSyntax.Proofs.Parsing.Recovered
import ScriptSyntax.Proofs.Parsing.Regular
import ScriptSyntax.Proofs.Parsing.Restart
import ScriptSyntax.Proofs.Parsing.Rounds
import ScriptSyntax.Proofs.Parsing.Runs
import ScriptSyntax.Proofs.Parsing.Safe
import ScriptSyntax.Proofs.Parsing.Shape
import ScriptSyntax.Proofs.Parsing.Spans
import ScriptSyntax.Proofs.Parsing.Steps
import ScriptSyntax.Proofs.Parsing.Tiers
import ScriptSyntax.Proofs.Parsing.Trivia
import ScriptSyntax.Proofs.Parsing.Twice
import ScriptSyntax.Proofs.Parsing.Warnings
import ScriptSyntax.Proofs.Text.Line
import ScriptSyntax.Proofs.Token.Alone
import ScriptSyntax.Proofs.Token.Lexemes
import ScriptSyntax.Proofs.Token.Longest
import ScriptSyntax.Proofs.Token.Prefix
import ScriptSyntax.Proofs.Token.Respaced
import ScriptSyntax.Proofs.Token.Shared
import ScriptSyntax.Proofs.Token.Stored
import ScriptSyntax.Proofs.Token.Stream
import ScriptSyntax.Proofs.Token.Unterminated
import ScriptSyntax.Proofs.Token.Words
import ScriptSyntax.Proofs.Tree.Every
import ScriptSyntax.Proofs.Tree.Indented
import ScriptSyntax.Proofs.Tree.Levels
import ScriptSyntax.Proofs.Tree.Lines
import ScriptSyntax.Proofs.Tree.Nested
import ScriptSyntax.Proofs.Tree.Sexp
import ScriptSyntax.Proofs.Tree.Shape
import ScriptSyntax.Proofs.Tree.Traversal
import ScriptSyntax.Proofs.Tree.Walk
import ScriptSyntax.Proofs.Tree.WellFormed
import ScriptSyntax.Text.Blank
import ScriptSyntax.Text.Line
import ScriptSyntax.Text.Quoted
import ScriptSyntax.Text.Slice
import ScriptSyntax.Text.Unprintable
import ScriptSyntax.Token.Basic
import ScriptSyntax.Token.Kind
import ScriptSyntax.Token.Pattern
import ScriptSyntax.Token.Reserved
import ScriptSyntax.Token.Scan
import ScriptSyntax.Token.Stream
import ScriptSyntax.Tree.Document
import ScriptSyntax.Tree.Kind
import ScriptSyntax.Tree.Node
import ScriptSyntax.Tree.Query
import ScriptSyntax.Tree.Sexp
import ScriptSyntax.Tree.Walk
