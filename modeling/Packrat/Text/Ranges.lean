/-!
# Sets of code points

Character properties are given as closed intervals of code points, and case mappings as arithmetic
runs: every so many code points of an interval move by the same amount. The tables of single
properties stand in modules of their own; this one holds the two shapes and how they are read.

Text is shown and put into upper case by version 17 of the Unicode standard. What a pattern accepts
is fixed by version 16.
-/

namespace Packrat

/-- A set of code points as a list of closed intervals. -/
structure Ranges where
  /-- The first and the last code point of each interval. -/
  intervals : List (Nat × Nat)

/-- Whether the character lies in one of the intervals. -/
def Ranges.contains (ranges : Ranges) (c : Char) : Bool :=
  ranges.intervals.any fun interval => interval.1 ≤ c.toNat && c.toNat ≤ interval.2

/-- A character is contained if its code lies in one of the intervals. -/
theorem Ranges.contains_iff (ranges : Ranges) (c : Char) :
    ranges.contains c = true ↔ ∃ r ∈ ranges.intervals, r.1 ≤ c.toNat ∧ c.toNat ≤ r.2 := by
  simp [contains]

/-- Every `stride`-th code point from `first` to `last` moves by `offset`. -/
structure Shift where
  /-- The first code point that moves. -/
  first : Nat
  /-- The last code point that moves. -/
  last : Nat
  /-- The distance between code points that move. -/
  stride : Nat
  /-- How far each of them moves. -/
  offset : Int

namespace Shift

/-- Whether the shift moves code point `n`. -/
def moves (shift : Shift) (n : Nat) : Bool :=
  shift.first ≤ n && n ≤ shift.last && (n - shift.first) % shift.stride == 0

/-- Where the shift takes code point `n`, if it moves it. -/
def target? (shift : Shift) (n : Nat) : Option Nat :=
  if shift.moves n then some ((n : Int) + shift.offset).toNat else none

/-- The code point that the shift takes to `n`, if there is one. -/
def source? (shift : Shift) (n : Nat) : Option Nat :=
  let origin := ((n : Int) - shift.offset).toNat
  if shift.moves origin then some origin else none

end Shift

end Packrat
