import Packrat.Text.Utf8

/-!
# Line index

Lines end with a line feed. The index records where the lines of a text end, and grows only as far
into the text as it has been asked about; a position is then resolved by counting the ends in front
of it. Questions may come in any order.
-/

namespace Packrat

/-- Where the lines of a text end, as far as it has been scanned. -/
structure LineIndex where
  /-- The offsets just past each line feed seen so far, in ascending order. -/
  ends : List Nat := []
  /-- Everything in front of this offset has been scanned. -/
  scanned : Nat := 0
  deriving DecidableEq, Repr, Inhabited

namespace LineIndex

/-- The offsets just past each line feed of the characters, the first of which is at `offset`. -/
def endsFrom : Nat → List Char → List Nat
  | _, [] => []
  | offset, c :: cs =>
    let next := offset + c.utf8Size
    if c = '\n' then next :: endsFrom next cs else endsFrom next cs

/-- Records the line ends in front of `upto` that are not recorded yet. -/
def scan (index : LineIndex) (text : Text) (upto : Nat) : LineIndex :=
  let upto := min upto text.size
  if upto ≤ index.scanned then index
  else
    let fresh := (endsFrom 0 text.chars).filter fun e => index.scanned < e && e ≤ upto
    ⟨index.ends ++ fresh, upto⟩

/-- The line and the column of byte offset `pos`, both counted from 1. Columns count characters,
or bytes when `pos` lies inside a character. -/
def lineAndColumn (index : LineIndex) (text : Text) (pos : Nat) : (Nat × Nat) × LineIndex :=
  let pos := min pos text.size
  let index := index.scan text pos
  let passed := index.ends.takeWhile (· ≤ pos)
  let start := passed.getLast?.getD 0
  let column := match text.cut? start pos with
    | some chars => chars.length
    | none => pos - start
  ((passed.length + 1, column + 1), index)

/-- The number of line ends recorded so far. -/
def knownLines (index : LineIndex) : Nat := index.ends.length

end LineIndex

end Packrat
