import CallerTree.Binary64
import CallerTree.Calendar
import CallerTree.CallTree
import CallerTree.CommandLine.Commands
import CallerTree.CommandLine.Flags
import CallerTree.CommandLine.Help
import CallerTree.CommandLine.Run
import CallerTree.Config.Basic
import CallerTree.Config.Load
import CallerTree.Duration
import CallerTree.Export.Document
import CallerTree.Export.Mermaid
import CallerTree.Export.Outline
import CallerTree.Failure
import CallerTree.FileContext
import CallerTree.FileSystem
import CallerTree.FunctionName
import CallerTree.Glob
import CallerTree.Hierarchy.CallSites
import CallerTree.Hierarchy.Engine
import CallerTree.Hierarchy.Resolve
import CallerTree.Http.Address
import CallerTree.Http.Page
import CallerTree.Http.Route
import CallerTree.Http.Server
import CallerTree.Http.Url
import CallerTree.Json
import CallerTree.Line.Classify
import CallerTree.Line.Enclosing
import CallerTree.Line.Shape
import CallerTree.Locator.Basic
import CallerTree.Log
import CallerTree.Mcp
import CallerTree.Metrics
import CallerTree.Occurrence
import CallerTree.Path
import CallerTree.Pattern
import CallerTree.Posix.Arithmetic
import CallerTree.Posix.Escape
import CallerTree.Posix.Expansion
import CallerTree.Posix.Launch
import CallerTree.Posix.Program
import CallerTree.Posix.Regex
import CallerTree.Posix.Script
import CallerTree.Posix.ScriptReader
import CallerTree.Posix.Shell
import CallerTree.Posix.Source
import CallerTree.Posix.State
import CallerTree.Posix.Utility.Awk
import CallerTree.Posix.Utility.Basic
import CallerTree.Posix.Utility.Files
import CallerTree.Posix.Utility.Find
import CallerTree.Posix.Utility.Grep
import CallerTree.Posix.Utility.Lines
import CallerTree.Posix.Utility.Octets
import CallerTree.Posix.Utility.Printing
import CallerTree.Posix.Utility.Sed
import CallerTree.Posix.Utility.Sorting
import CallerTree.Posix.Utility.Table
import CallerTree.Posix.Utility.Testing
import CallerTree.Posix.Utility.Xargs
import CallerTree.Search
import CallerTree.Service
import CallerTree.SourceLines
import CallerTree.SourceTree.Basic
import CallerTree.SourceTree.Files
import CallerTree.Stream
import CallerTree.Stream.Reader
import CallerTree.Text.Base64
import CallerTree.Text.Basic
import CallerTree.Text.Blank
import CallerTree.Text.Literal
import CallerTree.Text.LowerCase
import CallerTree.Text.Numeral
import CallerTree.Text.Printable
import CallerTree.Text.Quoted
import CallerTree.Text.Utf8
import CallerTree.Tool
import CallerTree.World
import CallerTree.Yaml.Cursor
import CallerTree.Yaml.Decode
import CallerTree.Yaml.Node
import CallerTree.Yaml.Property
import CallerTree.Yaml.Scalar
import CallerTree.Yaml.Source
import CallerTree.Yaml.Timestamp
import CallerTree.Yaml.Token
import CallerTree.Yaml.Value
import CallerTree.Main
import CallerTree.Proofs.Congruence
import CallerTree.Proofs.Growth
import CallerTree.Proofs.CallSites
import CallerTree.Proofs.Callers
import CallerTree.Proofs.Cycles
import CallerTree.Proofs.Pieces
import CallerTree.Proofs.Stream
import CallerTree.Proofs.Streaming
import CallerTree.Proofs.Path
import CallerTree.Proofs.FileTree
import CallerTree.Proofs.Walk
import CallerTree.Proofs.Exclusion
import CallerTree.Proofs.LineNumbers
import CallerTree.Proofs.Progress
import CallerTree.Proofs.Interleaving
import CallerTree.Proofs.Returns
import CallerTree.Proofs.Shape
import CallerTree.Proofs.DepthMarks
import CallerTree.Proofs.DepthLimit
import CallerTree.Proofs.DepthBound
import CallerTree.Proofs.Interruption
import CallerTree.Proofs.Names
import CallerTree.Proofs.LinePatterns
import CallerTree.Proofs.Commands
import CallerTree.Proofs.ToolOutput
import CallerTree.Proofs.BlankPaths
import CallerTree.Proofs.NameFile
import CallerTree.Proofs.Headers
import CallerTree.Proofs.Writing
import CallerTree.Proofs.Endings
import CallerTree.Proofs.Codes
import CallerTree.Proofs.Failures
import CallerTree.Proofs.Scan
import CallerTree.Proofs.Interchange
import CallerTree.Proofs.FirstFailure
import CallerTree.Proofs.NameForm
import CallerTree.Proofs.Refusals
import CallerTree.Proofs.ToolCalls
import CallerTree.Proofs.Repeatable
import CallerTree.Proofs.Frame
import CallerTree.Proofs.Window
import CallerTree.Proofs.Chain
import CallerTree.Proofs.Lookups
import CallerTree.Proofs.OneAtATime
import CallerTree.Proofs.Preference
import CallerTree.Proofs.Anatomy
import CallerTree.Proofs.Statements
import CallerTree.Proofs.DefinitionHeaders
import CallerTree.Proofs.WholeWords
import CallerTree.Proofs.NearestHeader
import CallerTree.Proofs.RawLines
import CallerTree.Proofs.Reassembly
import CallerTree.Proofs.Fragments
import CallerTree.Proofs.Transcript
import CallerTree.Proofs.Enumeration
import CallerTree.Proofs.Relative
import CallerTree.Proofs.Roots
import CallerTree.Proofs.Preorder
import CallerTree.Proofs.OutlineLines
import CallerTree.Proofs.Graph
import CallerTree.Proofs.SearchLimit
import CallerTree.Proofs.JsonText
import CallerTree.Proofs.DocumentText
import CallerTree.Proofs.HttpAnswers
import CallerTree.Proofs.Serving
import CallerTree.Proofs.Settings
