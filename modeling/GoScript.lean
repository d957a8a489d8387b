import GoScript.Position
import GoScript.Text.Blank
import GoScript.Text.Unprintable
import GoScript.Text.Quoted
import GoScript.Text.Bytes
import GoScript.Text.Line
import GoScript.Numeral
import GoScript.Cleanup
import GoScript.Token
import GoScript.Token.Pattern
import GoScript.Token.Scan
import GoScript.GoType
import GoScript.Precedence
import GoScript.Error
import GoScript.Error.Report
import GoScript.Node.Basic
import GoScript.Node.Outline
import GoScript.Node.Source
import GoScript.Grammar.Cursor
import GoScript.Grammar.Loop
import GoScript.Grammar.Rule
import GoScript.Grammar.TypeRules
import GoScript.Grammar.ExpressionRules
import GoScript.Grammar.StatementRules
import GoScript.Grammar.Parse
import GoScript.Scope
import GoScript.Emit.Sink
import GoScript.Emit.Expression
import GoScript.Emit.Writer
import GoScript.Emit.Emitter
import GoScript.Emit.Statement
import GoScript.TypeScript
import GoScript.CommandLine.Arguments
import GoScript.CommandLine.Files
import GoScript.CommandLine.Host
import GoScript.CommandLine.Output
import GoScript.CommandLine.Run
import GoScript.Main
import GoScript.Proofs.Parts
import GoScript.Proofs.Relocation
import GoScript.Proofs.Runs
import GoScript.Proofs.Views
import GoScript.Proofs.Rules
import GoScript.Proofs.Nesting
import GoScript.Proofs.Primaries
import GoScript.Proofs.Layers
import GoScript.Proofs.Spelling
import GoScript.Proofs.Formation
import GoScript.Proofs.Checks
import GoScript.Proofs.Derivations
import GoScript.Proofs.Derivability
import GoScript.Proofs.WellFormed
import GoScript.Proofs.Visibility
import GoScript.Proofs.Emissions
import GoScript.Proofs.LexicalScoping
import GoScript.Proofs.Lexing
import GoScript.Proofs.PrintedWords
import GoScript.Proofs.RoundTrip
import GoScript.Proofs.EmittedExpressions
import GoScript.Proofs.Parentheses
import GoScript.Proofs.Failures
import GoScript.Proofs.Lines
import GoScript.Proofs.Coverage
import GoScript.Proofs.Layout
import GoScript.Proofs.Origins
import GoScript.Proofs.Visits
import GoScript.Proofs.Constants
import GoScript.Proofs.LineNumbers
import GoScript.Proofs.Columns
import GoScript.Proofs.Lookahead
import GoScript.Proofs.Separators
import GoScript.Proofs.LineBreaks
import GoScript.Proofs.Comments
import GoScript.Proofs.Places
import GoScript.Proofs.Sequencing
import GoScript.Proofs.ScopeStack
import GoScript.Proofs.Truncation
import GoScript.Proofs.FunctionOrder
import GoScript.Proofs.CommandRuns
import GoScript.Proofs.Consumption
import GoScript.Proofs.Acceptance
import GoScript.Proofs.EmissionFrame
import GoScript.Proofs.Homogeneity
import GoScript.Proofs.WrittenTypes
import GoScript.Proofs.CalledNames
import GoScript.Proofs.ArraySpellings
import GoScript.Proofs.Indexing
import GoScript.Proofs.ImportBlocks
import GoScript.Proofs.ParameterLists
import GoScript.Proofs.Groups
import GoScript.Proofs.Pieces
import GoScript.Proofs.SpanNesting
import GoScript.Proofs.Spacing
import GoScript.Proofs.LineLookup
import GoScript.Proofs.StrayCharacters
import GoScript.Proofs.Carets
import GoScript.Proofs.MaximalMunch
import GoScript.Proofs.Progress
import GoScript.Proofs.Literals
