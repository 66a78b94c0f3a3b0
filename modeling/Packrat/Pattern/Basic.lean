import Packrat.Text.CaseFold
import Packrat.Text.Classes
import Packrat.Text.WordChar

/-!
# Patterns over one character

A pattern is a regular expression that is only ever asked about texts of one character. Such a text
has two places, in front of the character and behind it, so what a pattern can match there is fully
described by three answers: nothing in front of the character, the character itself, and nothing
behind it. `Pattern.reach` computes the three, and `Pattern.accepts` asks whether any of them holds.
-/

namespace Packrat

/-- A set of characters. -/
inductive CharSet where
  /-- No character. -/
  | none
  /-- The characters between two, both included. -/
  | range (first last : Char)
  /-- Letters, marks, digits, connectors and joiners of any script. -/
  | word
  /-- Decimal digits of any script. -/
  | digit
  /-- White space of any script. -/
  | blank
  /-- The characters of either set. -/
  | union (a b : CharSet)
  /-- The characters of both sets. -/
  | inter (a b : CharSet)
  /-- The characters of the first set that are not in the second. -/
  | diff (a b : CharSet)
  /-- The characters of exactly one of the sets. -/
  | symDiff (a b : CharSet)
  /-- All other characters. -/
  | compl (a : CharSet)
  /-- The characters that differ only in case from one of the set. -/
  | folded (a : CharSet)
  deriving Inhabited

namespace CharSet

/-- Whether the character belongs to the set. -/
def contains : CharSet → Char → Bool
  | .none, _ => false
  | .range first last, c => first ≤ c && c ≤ last
  | .word, c => isWordChar c
  | .digit, c => isDecimalDigit c
  | .blank, c => isBlank c
  | .union a b, c => a.contains c || b.contains c
  | .inter a b, c => a.contains c && b.contains c
  | .diff a b, c => a.contains c && !b.contains c
  | .symDiff a b, c => a.contains c != b.contains c
  | .compl a, c => !a.contains c
  | .folded a, c => (caseVariants c).any a.contains

/-- The set of one character. -/
def single (c : Char) : CharSet := .range c c

/-- The first 128 characters. -/
def ascii : CharSet := .range '\x00' '\x7f'

/-- The characters of any of the sets. -/
def unionAll (sets : List CharSet) : CharSet := sets.foldl .union .none

end CharSet

/-- Where a place lies with respect to words. -/
inductive WordEdge where
  /-- A word starts or ends here. -/
  | boundary
  /-- No word starts or ends here. -/
  | interior
  /-- A word starts here. -/
  | start
  /-- A word ends here. -/
  | stop
  /-- No word character stands in front. -/
  | startHalf
  /-- No word character follows. -/
  | stopHalf

/-- A condition on the characters around a place. -/
inductive Look where
  /-- The text starts here. -/
  | textStart
  /-- The text ends here. -/
  | textEnd
  /-- A line starts here; with `crlf` a line may also end with a carriage return. -/
  | lineStart (crlf : Bool)
  /-- A line ends here; with `crlf` a line may also end with a carriage return. -/
  | lineEnd (crlf : Bool)
  /-- A word edge, where a word is made of the characters of `letters`. -/
  | wordEdge (edge : WordEdge) (letters : CharSet)

namespace Look

/-- Whether the condition holds between the characters `before` and `after`. -/
def holds (before after : Option Char) : Look → Bool
  | .textStart => before.isNone
  | .textEnd => after.isNone
  | .lineStart false => before.all (· == '\n')
  | .lineEnd false => after.all (· == '\n')
  | .lineStart true => before.all fun b => b == '\n' || (b == '\r' && after != some '\n')
  | .lineEnd true => after.all fun a => a == '\r' || (a == '\n' && before != some '\r')
  | .wordEdge edge letters =>
    let inFront := before.any letters.contains
    let behind := after.any letters.contains
    match edge with
    | .boundary => inFront != behind
    | .interior => inFront == behind
    | .start => !inFront && behind
    | .stop => inFront && !behind
    | .startHalf => !inFront
    | .stopHalf => !behind

end Look

/-- A regular expression. -/
inductive Pattern where
  /-- The empty text. -/
  | empty
  /-- One character of the set. -/
  | one (set : CharSet)
  /-- The empty text, where the condition holds. -/
  | look (condition : Look)
  /-- The first pattern, then the second. -/
  | concat (a b : Pattern)
  /-- Either pattern. -/
  | either (a b : Pattern)
  /-- The pattern from `min` to `max` times; without `max`, any number of times from `min` on. -/
  | times (a : Pattern) (min : Nat) (max : Option Nat)
  /-- The pattern, in a group that can be referred to. -/
  | capture (a : Pattern)
  deriving Inhabited

/-- What can be matched on a text of one character. -/
structure Reach where
  /-- Nothing, in front of the character. -/
  inFront : Bool
  /-- The character. -/
  across : Bool
  /-- Nothing, behind the character. -/
  behind : Bool
  deriving DecidableEq, Repr

namespace Reach

/-- Nothing, at either place. -/
def nothing : Reach := ⟨true, false, true⟩

/-- What the one and then the other reach. -/
def andThen (a b : Reach) : Reach :=
  ⟨a.inFront && b.inFront, (a.inFront && b.across) || (a.across && b.behind), a.behind && b.behind⟩

/-- What one or the other reaches. -/
def orElse (a b : Reach) : Reach :=
  ⟨a.inFront || b.inFront, a.across || b.across, a.behind || b.behind⟩

/-- What exactly `n` rounds reach: one round crosses, the others find room in front or behind. -/
def exactly (a : Reach) : Nat → Reach
  | 0 => nothing
  | 1 => a
  | _ + 2 => ⟨a.inFront, a.across && (a.inFront || a.behind), a.behind⟩

/-- What any number of rounds up to at least one reaches. -/
def optional (a : Reach) : Reach := ⟨true, a.across, true⟩

/-- What `min` to `max` rounds reach. -/
def times (a : Reach) (min : Nat) (max : Option Nat) : Reach :=
  if max = some min then a.exactly min else (a.exactly min).andThen a.optional

end Reach

namespace Pattern

/-- What the pattern matches on the text `c`. -/
def reach (c : Char) : Pattern → Reach
  | .empty => .nothing
  | .one set => ⟨false, set.contains c, false⟩
  | .look condition => ⟨condition.holds none (some c), false, condition.holds (some c) none⟩
  | .concat a b => (a.reach c).andThen (b.reach c)
  | .either a b => (a.reach c).orElse (b.reach c)
  | .times a min max => (a.reach c).times min max
  | .capture a => a.reach c

/-- Whether the pattern matches somewhere in the text `c`. -/
def accepts (p : Pattern) (c : Char) : Bool :=
  let found := p.reach c
  found.inFront || found.across || found.behind

/-- The patterns one after the other. -/
def concatAll : List Pattern → Pattern
  | [] => .empty
  | [p] => p
  | p :: rest => .concat p (concatAll rest)

/-- Any of the patterns. -/
def eitherAll : List Pattern → Pattern
  | [] => .empty
  | [p] => p
  | p :: rest => .either p (eitherAll rest)

end Pattern

end Packrat
