import UrlFilter.CharClass
import UrlFilter.Command.Basic
import UrlFilter.Command.Bench
import UrlFilter.Command.Check
import UrlFilter.Command.Error
import UrlFilter.Command.FileTree
import UrlFilter.Command.Invocation
import UrlFilter.Command.Loading
import UrlFilter.Command.Match
import UrlFilter.Command.Result
import UrlFilter.Command.Run
import UrlFilter.Command.Surroundings
import UrlFilter.Command.Timing
import UrlFilter.CompileError
import UrlFilter.DomainToken
import UrlFilter.Event
import UrlFilter.Filter.Basic
import UrlFilter.Filter.Compile
import UrlFilter.Filter.Option
import UrlFilter.FilterList
import UrlFilter.Flags
import UrlFilter.Instruction
import UrlFilter.Json
import UrlFilter.Line
import UrlFilter.Listing
import UrlFilter.Machine
import UrlFilter.Main
import UrlFilter.Pattern.Normal
import UrlFilter.Pattern.Reader
import UrlFilter.Pattern.Syntax
import UrlFilter.Program
import UrlFilter.Query
import UrlFilter.Rule
import UrlFilter.RuleSet
import UrlFilter.Text.Blank
import UrlFilter.Text.ByteEscape
import UrlFilter.Text.Bytes
import UrlFilter.Text.ControlSequence
import UrlFilter.Text.Lines
import UrlFilter.Text.Quoted
import UrlFilter.Text.Unprintable
import UrlFilter.Proofs.Line.Plain
import UrlFilter.Proofs.Machine.Move
import UrlFilter.Proofs.Machine.Run
import UrlFilter.Proofs.Machine.Word
import UrlFilter.Proofs.Pattern.Grammar
import UrlFilter.Proofs.Pattern.Translation
import UrlFilter.Proofs.Text.Ascii
import UrlFilter.Proofs.Matching.Start
import UrlFilter.Proofs.Matching.Fixed
import UrlFilter.Proofs.Matching.Wildcard
import UrlFilter.Proofs.Pattern.Clean
import UrlFilter.Proofs.Rule.Shape
import UrlFilter.Proofs.RuleSet.Reached
import UrlFilter.Proofs.FilterList.Pass
import UrlFilter.Proofs.FilterList.Lines
import UrlFilter.Proofs.RuleSet.Load
import UrlFilter.Proofs.Matching.Tail
import UrlFilter.Proofs.Query.Domain
import UrlFilter.Proofs.Matching.Host
import UrlFilter.Proofs.Text.Substring
import UrlFilter.Proofs.RuleSet.Answers
import UrlFilter.Proofs.RuleSet.Growth
import UrlFilter.Proofs.Filter.Flags
import UrlFilter.Proofs.Pattern.Mark
import UrlFilter.Proofs.Rule.Exception
import UrlFilter.Proofs.RuleSet.DomainConstraint
import UrlFilter.Proofs.Filter.Recorded
import UrlFilter.Proofs.Text.Lines
import UrlFilter.Proofs.FilterList.Joined
import UrlFilter.Proofs.RuleSet.Rebuild
import UrlFilter.Proofs.Machine.Extend
import UrlFilter.Proofs.Matching.LongerUri
import UrlFilter.Proofs.Command.Loading
import UrlFilter.Proofs.Command.CheckLines
import UrlFilter.Proofs.Json
import UrlFilter.Proofs.Command.Agreement
import UrlFilter.Proofs.Machine.Cursors
import UrlFilter.Proofs.Text.Lower
import UrlFilter.Proofs.Pattern.Case
import UrlFilter.Proofs.Pattern.Decode
import UrlFilter.Proofs.Filter.Case
import UrlFilter.Proofs.Command.Formats
import UrlFilter.Proofs.Pattern.Edges
import UrlFilter.Proofs.Pattern.Fault
import UrlFilter.Proofs.Rule.Recompile
import UrlFilter.Proofs.Pattern.Front
import UrlFilter.Proofs.Pattern.Kept
import UrlFilter.Proofs.Filter.Marked
import UrlFilter.Proofs.RuleSet.Framing
import UrlFilter.Proofs.Query.Span
import UrlFilter.Proofs.Listing.Lines
import UrlFilter.Proofs.Listing.Readable
import UrlFilter.Proofs.Filter.Written
import UrlFilter.Proofs.Listing.Counts
import UrlFilter.Proofs.Machine.Turn
import UrlFilter.Proofs.Machine.Bound
import UrlFilter.Proofs.Machine.Rest
