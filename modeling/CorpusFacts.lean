import CorpusFacts.Analysis.Aggregator
import CorpusFacts.Analysis.Extraction
import CorpusFacts.Analysis.Finding
import CorpusFacts.Analysis.Survey
import CorpusFacts.CommandLine.Option
import CorpusFacts.CommandLine.Parse
import CorpusFacts.CommandLine.Run
import CorpusFacts.Config.RunConfig
import CorpusFacts.Config.Settings
import CorpusFacts.Config.YamlBlock
import CorpusFacts.Config.YamlDocument
import CorpusFacts.Config.YamlLexer
import CorpusFacts.Config.YamlNode
import CorpusFacts.Config.YamlScalar
import CorpusFacts.Config.YamlToken
import CorpusFacts.Files.Changes
import CorpusFacts.Files.Entry
import CorpusFacts.Files.Failure
import CorpusFacts.Files.FileTree
import CorpusFacts.Files.Path
import CorpusFacts.Files.Walk
import CorpusFacts.Glob.Match
import CorpusFacts.Glob.Pattern
import CorpusFacts.Gradle.Block
import CorpusFacts.Gradle.Declaration
import CorpusFacts.Gradle.Dependencies
import CorpusFacts.Gradle.IncludedModules
import CorpusFacts.Gradle.PluginEntry
import CorpusFacts.Gradle.Plugins
import CorpusFacts.Gradle.PropertyEntries
import CorpusFacts.Imports.Directive
import CorpusFacts.Imports.Imports
import CorpusFacts.Main
import CorpusFacts.Output.Format
import CorpusFacts.Output.Json
import CorpusFacts.Output.Naming
import CorpusFacts.Output.Record
import CorpusFacts.Output.Render
import CorpusFacts.Output.Write
import CorpusFacts.Project.Basic
import CorpusFacts.Project.BuildRoot
import CorpusFacts.Project.Error
import CorpusFacts.Project.Finder
import CorpusFacts.Project.Metrics
import CorpusFacts.Project.ModuleList
import CorpusFacts.Project.Modules
import CorpusFacts.Project.Tags
import CorpusFacts.Project.Total
import CorpusFacts.Project.Units
import CorpusFacts.Proofs.Analysis.CommentedFacts
import CorpusFacts.Proofs.Analysis.JoinedFacts
import CorpusFacts.Proofs.Analysis.LineEndings
import CorpusFacts.Proofs.Analysis.LinePerFact
import CorpusFacts.Proofs.Analysis.ScriptFacts
import CorpusFacts.Proofs.Analysis.TextSurvey
import CorpusFacts.Proofs.CommandLine.ExitCodes
import CorpusFacts.Proofs.Files.Around
import CorpusFacts.Proofs.Files.Directories
import CorpusFacts.Proofs.Files.FreshWays
import CorpusFacts.Proofs.Files.Growth
import CorpusFacts.Proofs.Files.Joining
import CorpusFacts.Proofs.Files.Likeness
import CorpusFacts.Proofs.Files.Lookup
import CorpusFacts.Proofs.Files.Nesting
import CorpusFacts.Proofs.Files.PlainNames
import CorpusFacts.Proofs.Files.Preservation
import CorpusFacts.Proofs.Files.Resolution
import CorpusFacts.Proofs.Files.Settling
import CorpusFacts.Proofs.Files.Walk
import CorpusFacts.Proofs.Files.Ways
import CorpusFacts.Proofs.Gradle.BlockChain
import CorpusFacts.Proofs.Gradle.CoordinateLists
import CorpusFacts.Proofs.Gradle.DeclarationReaders
import CorpusFacts.Proofs.Gradle.KotlinNotation
import CorpusFacts.Proofs.Gradle.MergedPlugins
import CorpusFacts.Proofs.Gradle.Notations
import CorpusFacts.Proofs.Gradle.PluginBlocks
import CorpusFacts.Proofs.Gradle.QuotedParts
import CorpusFacts.Proofs.Gradle.ShortNotation
import CorpusFacts.Proofs.Gradle.WrittenEntries
import CorpusFacts.Proofs.Gradle.WrittenSettings
import CorpusFacts.Proofs.Imports.ImportedNames
import CorpusFacts.Proofs.Imports.WrittenDirectives
import CorpusFacts.Proofs.Output.Descent
import CorpusFacts.Proofs.Output.Filling
import CorpusFacts.Proofs.Output.ReadBack
import CorpusFacts.Proofs.Output.Repeating
import CorpusFacts.Proofs.Output.Rewriting
import CorpusFacts.Proofs.Output.Sharing
import CorpusFacts.Proofs.Output.Surroundings
import CorpusFacts.Proofs.Output.UsablePatterns
import CorpusFacts.Proofs.Project.Boundary
import CorpusFacts.Proofs.Project.Confinement
import CorpusFacts.Proofs.Project.ConservedMetrics
import CorpusFacts.Proofs.Project.Expansion
import CorpusFacts.Proofs.Project.LostSource
import CorpusFacts.Proofs.Project.Rediscovery
import CorpusFacts.Proofs.Project.Relisting
import CorpusFacts.Proofs.Project.Rereading
import CorpusFacts.Proofs.Project.SelectedSources
import CorpusFacts.Proofs.Project.UnorderedResults
import CorpusFacts.Proofs.Project.WrapperChains
import CorpusFacts.Proofs.Properties.StoredEntries
import CorpusFacts.Proofs.Properties.WrittenFiles
import CorpusFacts.Proofs.Run.Additions
import CorpusFacts.Proofs.Run.Configured
import CorpusFacts.Proofs.Run.Frame
import CorpusFacts.Proofs.Run.Isolation
import CorpusFacts.Proofs.Run.Rerunning
import CorpusFacts.Proofs.Run.Tolerance
import CorpusFacts.Proofs.Script.Balance
import CorpusFacts.Proofs.Script.BareTree
import CorpusFacts.Proofs.Script.Coverage
import CorpusFacts.Proofs.Script.FrontEnd
import CorpusFacts.Proofs.Script.Hiding
import CorpusFacts.Proofs.Script.Likeness
import CorpusFacts.Proofs.Script.LineBreaks
import CorpusFacts.Proofs.Script.LiteralEnds
import CorpusFacts.Proofs.Script.Moves
import CorpusFacts.Proofs.Script.Parallel
import CorpusFacts.Proofs.Script.Partition
import CorpusFacts.Proofs.Script.PieceEnds
import CorpusFacts.Proofs.Script.Pieces
import CorpusFacts.Proofs.Script.SecondBreak
import CorpusFacts.Proofs.Script.Shape
import CorpusFacts.Proofs.Script.Skeleton
import CorpusFacts.Proofs.Script.SpareLines
import CorpusFacts.Proofs.Script.Spelling
import CorpusFacts.Proofs.Syntax.Nodes
import CorpusFacts.Proofs.Syntax.Pieces
import CorpusFacts.Proofs.Text.Bytes
import CorpusFacts.Proofs.Text.Replacement
import CorpusFacts.Properties.Entry
import CorpusFacts.Properties.Lines
import CorpusFacts.Run.Executor
import CorpusFacts.Run.Outcome
import CorpusFacts.Run.Report
import CorpusFacts.Script.Lexer
import CorpusFacts.Script.Literal
import CorpusFacts.Script.Outline
import CorpusFacts.Script.Tree
import CorpusFacts.Sources.JavaDeclarations
import CorpusFacts.Sources.JavaGrammar
import CorpusFacts.Sources.JavaTokens
import CorpusFacts.Sources.Numeral
import CorpusFacts.Sources.PythonGrammar
import CorpusFacts.Sources.PythonImports
import CorpusFacts.Sources.PythonLayout
import CorpusFacts.Sources.PythonStrings
import CorpusFacts.Sources.PythonTokens
import CorpusFacts.Syntax.Chart
import CorpusFacts.Syntax.Grammar
import CorpusFacts.Syntax.Lexeme
import CorpusFacts.Syntax.Node
import CorpusFacts.Syntax.Parse
import CorpusFacts.Syntax.ParseError
import CorpusFacts.Syntax.SourceUnit
import CorpusFacts.Syntax.Token
import CorpusFacts.Text.Character
import CorpusFacts.Text.Digits
import CorpusFacts.Text.Quoted
import CorpusFacts.Text.Unicode.Alphabetic
import CorpusFacts.Text.Unicode.GraphemeExtend
import CorpusFacts.Text.Unicode.Mark
import CorpusFacts.Text.Unicode.Number
import CorpusFacts.Text.Unicode.Ranges
import CorpusFacts.Text.Unicode.Unprintable
import CorpusFacts.Text.Words
