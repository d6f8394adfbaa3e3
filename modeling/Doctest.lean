import Doctest.Source.LineMap
import Doctest.Token.Lexer
import Doctest.Outline.Basic
import Doctest.Outline.Skip
import Doctest.Outline.Header
import Doctest.Outline.Mark
import Doctest.Outline.Reading
import Doctest.Session.Plan
import Doctest.Session.Tally
import Doctest.Json.Reader
import Doctest.Compiler.Message
import Doctest.Diagnostic.Layout
import Doctest.Diagnostic.Report
import Doctest.Crate.Load
import Doctest.Crate.Manifest
import Doctest.Session.Config
import Doctest.Session.Script
import Doctest.Session.Workspace
import Doctest.Session.Program
import Doctest.Cli.Command
import Doctest.Main
import Doctest.Proofs.Text.Lines
import Doctest.Proofs.Source.LineMap
import Doctest.Proofs.Snippet.Blocks
import Doctest.Proofs.Snippet.Places
import Doctest.Proofs.Unit.LineOrigins
import Doctest.Proofs.Token.Places
import Doctest.Proofs.Outline.Remainders
import Doctest.Proofs.Session.Tally
import Doctest.Proofs.Session.Walk
import Doctest.Proofs.Session.Journal
import Doctest.Proofs.Session.Agreement
import Doctest.Proofs.Session.Accounting
import Doctest.Proofs.Session.DistinctUnits
import Doctest.Proofs.Outline.Balanced
import Doctest.Proofs.Outline.DocLines
import Doctest.Proofs.Outline.Forest
import Doctest.Proofs.Outline.ForestMarks
import Doctest.Proofs.Outline.Grafting
import Doctest.Proofs.Outline.Comments
import Doctest.Proofs.Crate.Layout
import Doctest.Proofs.Crate.Loading
import Doctest.Proofs.Crate.Nesting
import Doctest.Proofs.Outline.ModuleNames
import Doctest.Proofs.Crate.Inlining
import Doctest.Proofs.Outline.Building
import Doctest.Proofs.Outline.Containment
import Doctest.Proofs.Outline.ModuleBlocks
import Doctest.Proofs.Token.Coverage
import Doctest.Proofs.Crate.Isolation
import Doctest.Proofs.Unit.Registrations
import Doctest.Proofs.Outline.Merging
import Doctest.Proofs.Outline.FaultLimit
import Doctest.Proofs.Token.HeaderNames
import Doctest.Proofs.Outline.Impls
import Doctest.Proofs.Outline.Progress
import Doctest.Proofs.Outline.Subtree
import Doctest.Proofs.Outline.DocForms
import Doctest.Proofs.Token.BlockDocs
import Doctest.Proofs.Snippet.BlockDocs
import Doctest.Proofs.Token.Openers
import Doctest.Proofs.Token.Literals
import Doctest.Proofs.Token.PlainComments
import Doctest.Proofs.Outline.FunctionNames
import Doctest.Proofs.Unit.Namespaces
import Doctest.Proofs.Snippet.Attributes
import Doctest.Proofs.Source.Offsets
import Doctest.Proofs.Cli.Precedence
import Doctest.Proofs.Compiler.Messages
import Doctest.Proofs.Diagnostic.Report
import Doctest.Proofs.Diagnostic.Layout
