import Packrat.Pattern.Basic

/-!
# Limits on patterns

A repetition stands for as many copies of its operand as it has rounds, so a short text can describe
a very large pattern. `Pattern.size` estimates how many bytes the steps of a matching machine take
once every repetition is written out; a pattern of more than `sizeLimit` bytes is refused. A step
takes `stepSize` bytes, and a step that branches takes `branchSize` more for every way to go on. The
machine reads bytes, so a set beyond the first 128 characters takes a step for every byte of the
sequences that it is made of.

The text of a pattern is made of parts inside parts, and it may not be nested deeper than
`nestingLimit`. A character, an escape, a dot, an anchor or a set of flags has no depth. A group, a
repetition, a pair of brackets and an operator between brackets are each one level above what they
hold, and so are parts that stand side by side, if there are at least two of them.
-/

namespace Packrat

/-- The bytes that one step takes. -/
def stepSize : Nat := 32

/-- The bytes that one way out of a branching step takes. -/
def branchSize : Nat := 4

/-- The bytes that one run of a step over a set of single bytes takes. -/
def runSize : Nat := 8

namespace CharSet

/-- Whether all characters of the set are among the first 128, as far as its form tells. -/
def isAscii : CharSet → Bool
  | .none => true
  | .range _ last => last.toNat < 0x80
  | .word | .digit | .blank | .compl _ => false
  | .union a b | .symDiff a b => a.isAscii && b.isAscii
  | .inter a b => a.isAscii || b.isAscii
  | .diff a _ => a.isAscii
  | .folded a => a.isAscii && !"kKsS".toList.any a.contains

/-- The number of runs of `true`; `inside` tells whether a run is going on. -/
def countRuns (inside : Bool) : List Bool → Nat
  | [] => 0
  | true :: rest => (if inside then 0 else 1) + countRuns true rest
  | false :: rest => countRuns false rest

/-- The size of a set among the first 128 characters. A single character is one step; any other set
is a step over its runs and a step at which they meet. -/
def asciiSize (set : CharSet) : Nat :=
  let members := (List.range 0x80).map fun n => set.contains (Char.ofNat n)
  if members.count true ≤ 1 then stepSize else 2 * stepSize + runSize * countRuns false members

/-- An estimate of what the byte sequences of a set take, without the branching step in front of
them and the step at which they meet. -/
def sequencesSize : CharSet → Nat
  | .none => 0
  | .range first last =>
    let sequence := stepSize * last.utf8Size + branchSize
    if first = last || last.toNat < 0x80 then sequence else 2 * sequence
  | .word => 49772
  | .digit => 5052
  | .blank => 616
  | .union a b | .diff a b | .symDiff a b => a.sequencesSize + b.sequencesSize
  | .inter a b => min a.sequencesSize b.sequencesSize
  | .compl .word => 46356
  | .compl .digit => 12656
  | .compl a => a.sequencesSize + 900
  | .folded a => a.sequencesSize

/-- The size of a set. -/
def size (set : CharSet) : Nat :=
  if set.isAscii then set.asciiSize else
  match set with
  | .range first last =>
    if first = last then stepSize * first.utf8Size else 2 * stepSize + set.sequencesSize
  | _ => 2 * stepSize + set.sequencesSize

end CharSet

namespace Pattern

/-- The largest size that a pattern may have. -/
def sizeLimit : Nat := 10 * 1024 * 1024

/-- The steps around a pattern: where it is entered, where it starts and ends, and its success. -/
def frameSize : Nat := 4 * stepSize

/-- Whether the pattern can only match the empty text. -/
def isHollow : Pattern → Bool
  | .empty | .look _ => true
  | .one _ => false
  | .concat a b | .either a b => a.isHollow && b.isHollow
  | .times a _ max => a.isHollow || max == some 0
  | .capture a => a.isHollow

/-- The set of a pattern that chooses between single characters. -/
def alternatives? : Pattern → Option CharSet
  | .one set => some set
  | .either a b => do return .union (← a.alternatives?) (← b.alternatives?)
  | _ => none

/-- The size of an operand of size `each` that is repeated. Every optional round is entered by a
branching step of its own; an open end is one branching step behind the last round. -/
def repeatedSize (each min : Nat) : Option Nat → Nat
  | none => max min 1 * each + stepSize + 2 * branchSize
  | some 0 => stepSize
  | some max =>
    if min = max then max * each
    else max * each + (max - min) * (stepSize + 2 * branchSize) + stepSize

/-- The size of a pattern. The branches of a choice are entered from one step and meet at another;
more than one round of an operand that matches only the empty text is never written out. -/
def size : Pattern → Nat
  | .empty | .look _ => stepSize
  | .one set => set.size
  | .concat a b => a.size + b.size
  | .either a b =>
    match (Pattern.either a b).alternatives?, b with
    | some set, _ => set.size
    | none, .either _ _ => a.size + branchSize + b.size
    | none, _ => 2 * stepSize + (a.size + branchSize) + (b.size + branchSize)
  | .times a min max =>
    if a.isHollow then repeatedSize a.size (Min.min min 1) (some (Min.min (max.getD 1) 1))
    else repeatedSize a.size min max
  | .capture a => a.size + 2 * stepSize

/-- The deepest nesting that the text of a pattern may have. -/
def nestingLimit : Nat := 250

/-- Something that was read from a text, and how deep that text is nested. -/
structure Nested (α : Type) where
  /-- What was read. -/
  value : α
  /-- The levels of nesting. -/
  depth : Nat := 0

namespace Nested

/-- The value `f` makes of what was read, one level further up. -/
def lift {α β : Type} (f : α → β) (a : Nested α) : Nested β := ⟨f a.value, a.depth + 1⟩

/-- The value `f` makes of two things that were read, one level above both. -/
def lift₂ {α β γ : Type} (f : α → β → γ) (a : Nested α) (b : Nested β) : Nested γ :=
  ⟨f a.value b.value, max a.depth b.depth + 1⟩

/-- The depth of parts that stand side by side. -/
def depthOfAll {α : Type} : List (Nested α) → Nat
  | [] => 0
  | [a] => a.depth
  | parts => (parts.map (·.depth)).foldl max 0 + 1

/-- The value `f` makes of parts that stand side by side. -/
def gather {α β : Type} (f : List α → β) (parts : List (Nested α)) : Nested β :=
  ⟨f (parts.map (·.value)), depthOfAll parts⟩

end Nested

end Pattern

end Packrat
