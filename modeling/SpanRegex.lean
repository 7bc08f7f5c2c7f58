import SpanRegex.Text
import SpanRegex.CodeUnit.Run
import SpanRegex.CodeUnit.Digits
import SpanRegex.CodeUnit.Blanks
import SpanRegex.CodeUnit.Letters
import SpanRegex.CodeUnit.CaseMap
import SpanRegex.UnitSet
import SpanRegex.Quoted
import SpanRegex.Pattern.Options
import SpanRegex.Pattern.Error
import SpanRegex.Pattern.GroupNames
import SpanRegex.Pattern.Tree
import SpanRegex.CodeUnit.Sets
import SpanRegex.Pattern.Escape
import SpanRegex.Pattern.ClassText
import SpanRegex.Pattern.Token
import SpanRegex.Pattern.Arena
import SpanRegex.Pattern.Compile
import SpanRegex.Pattern.Outline
import SpanRegex.Pattern.Links
import SpanRegex.Captures
import SpanRegex.Matching.Store
import SpanRegex.Matching.Input
import SpanRegex.Matching.Condition
import SpanRegex.Matching.Machine
import SpanRegex.Matching.Turn
import SpanRegex.Matching.Matcher
import SpanRegex.Regex
import SpanRegex.Highlight
import SpanRegex.CommandLine.Arguments
import SpanRegex.CommandLine.Search
import SpanRegex.CommandLine.Folder
import SpanRegex.CommandLine.Run
import SpanRegex.Main
import SpanRegex.Proofs.Runs
import SpanRegex.Proofs.Trail
import SpanRegex.Proofs.Sequence
import SpanRegex.Proofs.Builder
import SpanRegex.Proofs.Numbering
import SpanRegex.Proofs.Arena
import SpanRegex.Proofs.Alternation
import SpanRegex.Proofs.Drafts
import SpanRegex.Proofs.Reference
import SpanRegex.Proofs.Shapes
import SpanRegex.Proofs.Yields
import SpanRegex.Proofs.Nodes
import SpanRegex.Proofs.Loops
import SpanRegex.Proofs.Repeats
import SpanRegex.Proofs.Attempts
import SpanRegex.Proofs.Exactness
import SpanRegex.Proofs.Priority
import SpanRegex.Proofs.Repetition
import SpanRegex.Proofs.Halting
import SpanRegex.Proofs.Moves
import SpanRegex.Proofs.Whole
import SpanRegex.Proofs.Existence
import SpanRegex.Proofs.Visible
import SpanRegex.Proofs.Stale
import SpanRegex.Proofs.Leftmost
import SpanRegex.Proofs.Ownership
import SpanRegex.Proofs.Endless
import SpanRegex.Proofs.Groups
import SpanRegex.Proofs.Prefilter
import SpanRegex.Proofs.Places
import SpanRegex.Proofs.Edges
import SpanRegex.Proofs.Spans
import SpanRegex.Proofs.Sweeps
import SpanRegex.Proofs.Ascending
import SpanRegex.Proofs.Sessions
import SpanRegex.Proofs.Budget
import SpanRegex.Proofs.Limits
import SpanRegex.Proofs.Expressions
import SpanRegex.Proofs.Lexemes
import SpanRegex.Proofs.Building
import SpanRegex.Proofs.Lines
import SpanRegex.Proofs.Classes
import SpanRegex.Proofs.Readers
import SpanRegex.Proofs.ClassReading
import SpanRegex.Proofs.TokenReading
import SpanRegex.Proofs.TokenWidths
import SpanRegex.Proofs.TokenRows
import SpanRegex.Proofs.Relabelling
import SpanRegex.Proofs.Lockstep
import SpanRegex.Proofs.Caseless
import SpanRegex.Proofs.Replacement
import SpanRegex.Proofs.Looks
import SpanRegex.Proofs.Marks
import SpanRegex.Proofs.Renumbering
import SpanRegex.Proofs.Slots
import SpanRegex.Proofs.CrossNames
import SpanRegex.Proofs.Joining
import SpanRegex.Proofs.Grafts
import SpanRegex.Proofs.Trials
import SpanRegex.Proofs.OrderedChoice
import SpanRegex.Proofs.FaultPlaces
import SpanRegex.Proofs.Spacing
import SpanRegex.Proofs.Painting
import SpanRegex.Proofs.Prospects
import SpanRegex.Proofs.Tallies
import SpanRegex.Proofs.OpenCounts
import SpanRegex.Proofs.CountBounds
import SpanRegex.Proofs.Rewinding
import SpanRegex.Proofs.Bitmaps
import SpanRegex.Proofs.Registers
