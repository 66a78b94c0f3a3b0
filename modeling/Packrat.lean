import Packrat.Atom.Basic
import Packrat.Atom.Choice
import Packrat.Atom.Render
import Packrat.Captures
import Packrat.Cause.Basic
import Packrat.Cause.Render
import Packrat.Decimal
import Packrat.Grammar.Basic
import Packrat.Matcher.Apply
import Packrat.Matcher.Combinators
import Packrat.Matcher.Memoized
import Packrat.Matcher.Operators
import Packrat.Memo
import Packrat.Options.Basic
import Packrat.Options.Json
import Packrat.Options.Reader
import Packrat.Parse
import Packrat.Pattern.Basic
import Packrat.Pattern.Bracket
import Packrat.Pattern.Escape
import Packrat.Pattern.Limits
import Packrat.Pattern.Reader
import Packrat.Proofs.Abreast
import Packrat.Proofs.Accounts
import Packrat.Proofs.Alternatives
import Packrat.Proofs.Anchoring
import Packrat.Proofs.Blaming
import Packrat.Proofs.Bonds
import Packrat.Proofs.Boundaries
import Packrat.Proofs.Bracketing
import Packrat.Proofs.Brackets
import Packrat.Proofs.CallPath
import Packrat.Proofs.Calls
import Packrat.Proofs.Choosing
import Packrat.Proofs.Climbing
import Packrat.Proofs.Clustering
import Packrat.Proofs.Concord
import Packrat.Proofs.Contract
import Packrat.Proofs.Copying
import Packrat.Proofs.Course
import Packrat.Proofs.Deepest
import Packrat.Proofs.Defining
import Packrat.Proofs.Derivation
import Packrat.Proofs.Detour
import Packrat.Proofs.Ending
import Packrat.Proofs.Endless
import Packrat.Proofs.Ensures
import Packrat.Proofs.Fidelity
import Packrat.Proofs.Following
import Packrat.Proofs.Gathering
import Packrat.Proofs.GrowingAlike
import Packrat.Proofs.Habits
import Packrat.Proofs.Indifference
import Packrat.Proofs.Indirection
import Packrat.Proofs.Joining
import Packrat.Proofs.LeftRecursion
import Packrat.Proofs.Legibility
import Packrat.Proofs.LineLocation
import Packrat.Proofs.Lockstep
import Packrat.Proofs.Lookup
import Packrat.Proofs.Maximality
import Packrat.Proofs.MemoLaws
import Packrat.Proofs.MemoSlices
import Packrat.Proofs.Merging
import Packrat.Proofs.Noting
import Packrat.Proofs.OneAnswer
import Packrat.Proofs.OperatorTree
import Packrat.Proofs.Paired
import Packrat.Proofs.Parts
import Packrat.Proofs.PassingOn
import Packrat.Proofs.Places
import Packrat.Proofs.Reading
import Packrat.Proofs.ReadingLaws
import Packrat.Proofs.Records
import Packrat.Proofs.Regime
import Packrat.Proofs.Remembering
import Packrat.Proofs.Renaming
import Packrat.Proofs.Room
import Packrat.Proofs.Rules
import Packrat.Proofs.Selection
import Packrat.Proofs.Settings
import Packrat.Proofs.Settled
import Packrat.Proofs.Settling
import Packrat.Proofs.Sharing
import Packrat.Proofs.Slices
import Packrat.Proofs.Soundness
import Packrat.Proofs.Splicing
import Packrat.Proofs.Stability
import Packrat.Proofs.Steady
import Packrat.Proofs.Straight
import Packrat.Proofs.Straying
import Packrat.Proofs.Surfacing
import Packrat.Proofs.Tagging
import Packrat.Proofs.Telling
import Packrat.Proofs.Termination
import Packrat.Proofs.Transparency
import Packrat.Proofs.Underway
import Packrat.Proofs.Verbatim
import Packrat.Proofs.Watching
import Packrat.Proofs.Yielding
import Packrat.Reporter
import Packrat.Session
import Packrat.Source.Basic
import Packrat.Source.LineIndex
import Packrat.Source.Slice
import Packrat.Text.Alphabetic
import Packrat.Text.CaseFold
import Packrat.Text.Classes
import Packrat.Text.GraphemeExtend
import Packrat.Text.Numeric
import Packrat.Text.Printable
import Packrat.Text.Quoted
import Packrat.Text.Ranges
import Packrat.Text.Uppercase
import Packrat.Text.Utf8
import Packrat.Text.WordChar
import Packrat.Trace
import Packrat.Tree.Basic
import Packrat.Tree.Flatten
import Packrat.Tree.Render
import Packrat.Tree.Transform
