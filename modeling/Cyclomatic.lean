import Cyclomatic.Analysis.Batch
import Cyclomatic.Analysis.File
import Cyclomatic.Analysis.Result
import Cyclomatic.Code.Brackets
import Cyclomatic.Code.Lines
import Cyclomatic.Code.View
import Cyclomatic.Command.Arguments
import Cyclomatic.Command.Run
import Cyclomatic.Command.Trouble
import Cyclomatic.Config
import Cyclomatic.Data.Value
import Cyclomatic.Decimal.Binary
import Cyclomatic.Decimal.Shortest
import Cyclomatic.Fault
import Cyclomatic.Files.Discovery
import Cyclomatic.Files.Tree
import Cyclomatic.Function.Angles
import Cyclomatic.Function.Detect
import Cyclomatic.Function.Forest
import Cyclomatic.Function.Signature
import Cyclomatic.Gate.Basic
import Cyclomatic.Gate.Risk
import Cyclomatic.Glob.Basic
import Cyclomatic.Glob.Reader
import Cyclomatic.Json
import Cyclomatic.Language.Basic
import Cyclomatic.Language.Canonical
import Cyclomatic.Language.Data
import Cyclomatic.Language.Go
import Cyclomatic.Language.Java
import Cyclomatic.Language.JavaScript
import Cyclomatic.Language.Kotlin
import Cyclomatic.Main
import Cyclomatic.Pattern.Basic
import Cyclomatic.Pattern.Reader
import Cyclomatic.Registry
import Cyclomatic.Report.CodeMap
import Cyclomatic.Report.Listing
import Cyclomatic.Report.Terminal
import Cyclomatic.Score.Body
import Cyclomatic.Score.Guard
import Cyclomatic.Text.Blank
import Cyclomatic.Text.Fold
import Cyclomatic.Text.Letter
import Cyclomatic.Text.Lower
import Cyclomatic.Text.Numeral
import Cyclomatic.Text.Quoted
import Cyclomatic.Text.Runs
import Cyclomatic.Text.Utf8
import Cyclomatic.Text.Words
import Cyclomatic.Token.Basic
import Cyclomatic.Token.Scan
import Cyclomatic.Yaml.Document
import Cyclomatic.Yaml.Scalar
import Cyclomatic.Yaml.Token
import Cyclomatic.Proofs.Brackets
import Cyclomatic.Proofs.Confinement
import Cyclomatic.Proofs.Levels
import Cyclomatic.Proofs.Walk
import Cyclomatic.Proofs.Forest
import Cyclomatic.Proofs.Order
import Cyclomatic.Proofs.Nesting
import Cyclomatic.Proofs.Builtin
import Cyclomatic.Proofs.BestEffort
import Cyclomatic.Proofs.JavaCore.Grammar
import Cyclomatic.Proofs.JavaCore.Spelling
import Cyclomatic.Proofs.Rules
import Cyclomatic.Proofs.JavaCore.Quiet
import Cyclomatic.Proofs.JavaCore.Body
import Cyclomatic.Proofs.JavaCore.Members
import Cyclomatic.Proofs.JavaCore.Exact
import Cyclomatic.Proofs.Alike.Basic
import Cyclomatic.Proofs.Alike.Signature
import Cyclomatic.Proofs.Alike.Walk
import Cyclomatic.Proofs.Alike.Score
import Cyclomatic.Proofs.Alike.Analysis
import Cyclomatic.Proofs.Scanning
import Cyclomatic.Proofs.Comments
import Cyclomatic.Proofs.LiteralPieces
import Cyclomatic.Proofs.BlankComments
import Cyclomatic.Proofs.Literals
import Cyclomatic.Proofs.Sorting
import Cyclomatic.Proofs.Tiling
import Cyclomatic.Proofs.Laminar
import Cyclomatic.Proofs.Containment
import Cyclomatic.Proofs.Visits
import Cyclomatic.Proofs.Decisions
import Cyclomatic.Proofs.Preorder
import Cyclomatic.Proofs.LambdaBodies
import Cyclomatic.Proofs.Anchors
import Cyclomatic.Proofs.Casing
import Cyclomatic.Proofs.Registry
import Cyclomatic.Proofs.Alike.Lines
import Cyclomatic.Proofs.Lines
import Cyclomatic.Proofs.Returns
import Cyclomatic.Proofs.LineEndings
import Cyclomatic.Proofs.Halting
import Cyclomatic.Proofs.GuardSearches
import Cyclomatic.Proofs.AnyForest
import Cyclomatic.Proofs.Batches
import Cyclomatic.Proofs.Views
import Cyclomatic.Proofs.Frames
import Cyclomatic.Proofs.ExactScores
import Cyclomatic.Proofs.Reading.Functions
import Cyclomatic.Proofs.Reading.Loops
import Cyclomatic.Proofs.Reading.FunctionTypes
import Cyclomatic.Proofs.Reading.Ternaries
import Cyclomatic.Proofs.Concatenation
import Cyclomatic.Proofs.QualifiedNames
import Cyclomatic.Proofs.Reading.OptionalChains
import Cyclomatic.Proofs.Reading.SwitchArrows
import Cyclomatic.Proofs.CanonicalTables
import Cyclomatic.Proofs.LiteralTexts
import Cyclomatic.Proofs.LongestMatch
import Cyclomatic.Proofs.Interpolations
import Cyclomatic.Proofs.Progress
import Cyclomatic.Proofs.Rankings
import Cyclomatic.Proofs.Discovery
import Cyclomatic.Proofs.CodeMaps
import Cyclomatic.Proofs.Partners
import Cyclomatic.Proofs.LineBreaks
import Cyclomatic.Proofs.GenericLists
import Cyclomatic.Proofs.GenericDepths
import Cyclomatic.Proofs.Sums
