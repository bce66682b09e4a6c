import CallerFirst.Batch
import CallerFirst.Calendar
import CallerFirst.CallGraph
import CallerFirst.CallGraph.Clustered
import CallerFirst.CallGraph.Declared
import CallerFirst.CallGraph.Extract
import CallerFirst.Cluster
import CallerFirst.CommandLine
import CallerFirst.Comparator
import CallerFirst.Comparator.Criteria
import CallerFirst.Config.File
import CallerFirst.Config.Options
import CallerFirst.Config.Preferences
import CallerFirst.Config.Value
import CallerFirst.FileTree
import CallerFirst.Java.Body
import CallerFirst.Java.Code
import CallerFirst.Java.Convert
import CallerFirst.Java.Escape
import CallerFirst.Java.Fault
import CallerFirst.Java.Overload
import CallerFirst.Java.Pairing
import CallerFirst.Java.Parser.Cursor
import CallerFirst.Java.Parser.Declarations
import CallerFirst.Java.Parser.Expressions
import CallerFirst.Java.Parser.Grammar
import CallerFirst.Java.Parser.Statements
import CallerFirst.Java.Parser.Types
import CallerFirst.Java.Parser.Unit
import CallerFirst.Java.Resolution
import CallerFirst.Java.Span
import CallerFirst.Java.Token
import CallerFirst.Java.Token.Lexer
import CallerFirst.Java.Token.Number
import CallerFirst.Java.TypeRef
import CallerFirst.Java.Unit
import CallerFirst.Java.Variables
import CallerFirst.Json.Reader
import CallerFirst.Json.Writer
import CallerFirst.Layout
import CallerFirst.Main
import CallerFirst.Malformed
import CallerFirst.Member
import CallerFirst.MethodOrder
import CallerFirst.Number.Binary64
import CallerFirst.Number.Integer
import CallerFirst.Program
import CallerFirst.Proofs.Account
import CallerFirst.Proofs.AppendedStarts
import CallerFirst.Proofs.Batch
import CallerFirst.Proofs.BodyOrder
import CallerFirst.Proofs.CallGraph.Agreement
import CallerFirst.Proofs.CallGraph.Below
import CallerFirst.Proofs.CallGraph.Declared
import CallerFirst.Proofs.CallGraph.Edits
import CallerFirst.Proofs.CallGraph.Extract
import CallerFirst.Proofs.CallGraph.LocalCalls
import CallerFirst.Proofs.CallGraph.Moved
import CallerFirst.Proofs.CallGraph.OfUnit
import CallerFirst.Proofs.CallGraph.Reach
import CallerFirst.Proofs.ClusterOrder
import CallerFirst.Proofs.Clusters
import CallerFirst.Proofs.Comparator
import CallerFirst.Proofs.DeclaredMethods
import CallerFirst.Proofs.DrawnOrder
import CallerFirst.Proofs.Entries
import CallerFirst.Proofs.Except
import CallerFirst.Proofs.Exploration
import CallerFirst.Proofs.FileTree
import CallerFirst.Proofs.Insertion
import CallerFirst.Proofs.Java.Bindings
import CallerFirst.Proofs.Java.Body
import CallerFirst.Proofs.Java.Brackets
import CallerFirst.Proofs.Java.Convert
import CallerFirst.Proofs.Java.CutOff
import CallerFirst.Proofs.Java.Escape
import CallerFirst.Proofs.Java.Lockstep
import CallerFirst.Proofs.Java.MemberSpans
import CallerFirst.Proofs.Java.MemberText
import CallerFirst.Proofs.Java.Overload
import CallerFirst.Proofs.Java.Pairing
import CallerFirst.Proofs.Java.Parser
import CallerFirst.Proofs.Java.Parser.Sites
import CallerFirst.Proofs.Java.Parser.Steady
import CallerFirst.Proofs.Java.PlainConversion
import CallerFirst.Proofs.Java.PlainResolution
import CallerFirst.Proofs.Java.Relocation
import CallerFirst.Proofs.Java.Scan
import CallerFirst.Proofs.Java.Siblings
import CallerFirst.Proofs.Java.SimpleName
import CallerFirst.Proofs.Java.Sites
import CallerFirst.Proofs.Java.Span
import CallerFirst.Proofs.Java.Token.InOrder
import CallerFirst.Proofs.Java.Token.InPlace
import CallerFirst.Proofs.Java.Token.Number
import CallerFirst.Proofs.Java.Token.Offset
import CallerFirst.Proofs.Java.Token.Parts
import CallerFirst.Proofs.Java.Token.Piece
import CallerFirst.Proofs.Java.Token.Places
import CallerFirst.Proofs.Java.Token.Reads
import CallerFirst.Proofs.Java.Token.Words
import CallerFirst.Proofs.Java.TypeText
import CallerFirst.Proofs.Java.Unit
import CallerFirst.Proofs.Java.WrittenType
import CallerFirst.Proofs.KeptOrder
import CallerFirst.Proofs.Layout
import CallerFirst.Proofs.LeadersFirst
import CallerFirst.Proofs.MethodOrder
import CallerFirst.Proofs.Persistence
import CallerFirst.Proofs.RankTable
import CallerFirst.Proofs.Search
import CallerFirst.Proofs.SecondPass
import CallerFirst.Proofs.Signature
import CallerFirst.Proofs.Slices
import CallerFirst.Proofs.SortedMembers
import CallerFirst.Proofs.Sorting
import CallerFirst.Proofs.Sorting.Map
import CallerFirst.Proofs.Sorting.Merge
import CallerFirst.Proofs.Sorting.Runs
import CallerFirst.Proofs.StableSorting
import CallerFirst.Proofs.StackOrder
import CallerFirst.Proofs.StartPoints
import CallerFirst.Proofs.StepdownRule
import CallerFirst.Proofs.Text
import CallerFirst.Proofs.TokensKept
import CallerFirst.Proofs.Traversal
import CallerFirst.Proofs.TraversalOrder
import CallerFirst.Proofs.Walk
import CallerFirst.Proofs.WalkEvents
import CallerFirst.Proofs.WeakOrder
import CallerFirst.Proofs.WorkingCopy
import CallerFirst.Proofs.WorkingList
import CallerFirst.Proofs.WrittenOrder
import CallerFirst.Proofs.Yaml.Documents
import CallerFirst.Proofs.Yaml.Lexer
import CallerFirst.Proofs.Yaml.Lines
import CallerFirst.Proofs.Yaml.Numerals
import CallerFirst.Proofs.Yaml.Places
import CallerFirst.Proofs.Yaml.Scalars
import CallerFirst.Random
import CallerFirst.Rank
import CallerFirst.Signature
import CallerFirst.Sorter
import CallerFirst.Sorting
import CallerFirst.Sorting.Merge
import CallerFirst.Sorting.Runs
import CallerFirst.Text.Blank
import CallerFirst.Text.Case
import CallerFirst.Text.Digit
import CallerFirst.Text.Hexadecimal
import CallerFirst.Text.Identifier
import CallerFirst.Text.Lines
import CallerFirst.Text.Printable
import CallerFirst.Text.Ranges
import CallerFirst.Text.Split
import CallerFirst.Text.Surrogate
import CallerFirst.Traversal
import CallerFirst.Tree
import CallerFirst.Walk
import CallerFirst.WorkingCopy
import CallerFirst.Yaml.Block
import CallerFirst.Yaml.Document
import CallerFirst.Yaml.Fault
import CallerFirst.Yaml.Node
import CallerFirst.Yaml.Place
import CallerFirst.Yaml.Reader
import CallerFirst.Yaml.Scalar
import CallerFirst.Yaml.Tag
import CallerFirst.Yaml.Text
import CallerFirst.Yaml.Timestamp
import CallerFirst.Yaml.Token
import CallerFirst.Yaml.Token.Lexer
import CallerFirst.Yaml.Writer
