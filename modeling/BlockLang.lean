import BlockLang.CommandLine
import BlockLang.CommandLine.Flags
import BlockLang.CommandLine.Usage
import BlockLang.Computation
import BlockLang.Config
import BlockLang.Config.File
import BlockLang.Config.Toml
import BlockLang.Config.Yaml
import BlockLang.Dialog
import BlockLang.Dump
import BlockLang.Evaluator
import BlockLang.Evaluator.State
import BlockLang.Expr
import BlockLang.Expr.Complete
import BlockLang.Expr.Labels
import BlockLang.Expr.Lifting
import BlockLang.Expr.Outline
import BlockLang.Expr.Parser
import BlockLang.Failure
import BlockLang.Fault
import BlockLang.FileTree
import BlockLang.FileTree.Directories
import BlockLang.History.Calendar
import BlockLang.History.Entry
import BlockLang.History.Listing
import BlockLang.History.Source
import BlockLang.History.Store
import BlockLang.Integer
import BlockLang.Library
import BlockLang.Log
import BlockLang.Log.File
import BlockLang.Main
import BlockLang.Numeral
import BlockLang.Procedure
import BlockLang.Procedure.Compute
import BlockLang.Prompt
import BlockLang.Prompt.Lines
import BlockLang.Record
import BlockLang.Session
import BlockLang.Store
import BlockLang.Text
import BlockLang.Text.Blank
import BlockLang.Text.CodeRange
import BlockLang.Text.Excerpt
import BlockLang.Text.Letter
import BlockLang.Text.Lowercase
import BlockLang.Text.Printable
import BlockLang.Text.Quoted
import BlockLang.Text.Utf8
import BlockLang.Token
import BlockLang.Token.Scan
import BlockLang.Config.Yaml.Cursor
import BlockLang.Config.Yaml.Scalar
import BlockLang.Config.Yaml.Token
import BlockLang.Decimal
import BlockLang.Config.Yaml.Node
import BlockLang.Config.Toml.Moment
import BlockLang.Config.Toml.Statement
import BlockLang.Proofs.Literal
import BlockLang.Proofs.Automaton
import BlockLang.Proofs.Grammar
import BlockLang.Proofs.Descent
import BlockLang.Proofs.Trivia
import BlockLang.Proofs.Grammar.Unambiguous
import BlockLang.Proofs.Grammar.Reading
import BlockLang.Proofs.Recognition
import BlockLang.Proofs.Recognition.Prefix
import BlockLang.Proofs.Scanning
import BlockLang.Proofs.Scanning.Junction
import BlockLang.Proofs.Scanning.Spelling
import BlockLang.Proofs.Scanning.Tiling
import BlockLang.Proofs.Scanning.Locality
import BlockLang.Proofs.Completion
import BlockLang.Proofs.Characters
import BlockLang.Proofs.Printing.Strings
import BlockLang.Proofs.Printing
import BlockLang.Proofs.Printing.Phrases
import BlockLang.Proofs.Printing.RoundTrip
import BlockLang.Proofs.Calls
import BlockLang.Proofs.Contracts
import BlockLang.Proofs.Evaluation.Vocabulary
import BlockLang.Proofs.Evaluation.Values
import BlockLang.Proofs.Evaluation.Frames
import BlockLang.Proofs.Evaluation.Forms
import BlockLang.Proofs.Evaluation.Regular
import BlockLang.Proofs.Evaluation.Counting
import BlockLang.Proofs.Evaluation.Definitions
import BlockLang.Proofs.Evaluation.Growth
import BlockLang.Proofs.Evaluation.States
import BlockLang.Proofs.Evaluation.Outcomes
import BlockLang.Proofs.Session.Steps
import BlockLang.Proofs.Evaluation.Evolution
import BlockLang.Proofs.Session.Inputs
import BlockLang.Proofs.Session.Soundness
import BlockLang.Proofs.Refinement.Alike
import BlockLang.Proofs.Refinement.Procedures
import BlockLang.Proofs.Refinement.Mirrors
import BlockLang.Proofs.Refinement.Simulation
import BlockLang.Proofs.Refinement.Blocks
import BlockLang.Proofs.Refinement.Sessions
import BlockLang.Proofs.Lifting
import BlockLang.Proofs.Printing.Programs
import BlockLang.Proofs.Evaluation.Assembly
import BlockLang.Proofs.Evaluation.Depth
import BlockLang.Proofs.Evaluation.Mapping
import BlockLang.Proofs.Evaluation.Captures
import BlockLang.Proofs.Session.Tracing
import BlockLang.Proofs.Session.Closures
import BlockLang.Proofs.Characters.Boundaries
import BlockLang.Proofs.Places
import BlockLang.Proofs.Reports
import BlockLang.Proofs.Prompting
import BlockLang.Proofs.Arithmetic
import BlockLang.Proofs.Arithmetic.Division
import BlockLang.Proofs.Literal.Programs
import BlockLang.Proofs.Characters.Indexing
import BlockLang.Proofs.Dumps.Strings
import BlockLang.Proofs.Dumps
import BlockLang.Proofs.Dumps.Trees
