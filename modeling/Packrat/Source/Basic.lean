import Packrat.Source.LineIndex
import Packrat.Source.Slice

/-!
# Source

The input of one match and a cursor over it. Looking ahead does not move the cursor, consuming moves
it forward and hands back a slice, and setting the position is the one way to go back. An operation
whose answer is optional gives none when the cursor would leave the text or come to stand inside a
character.
-/

namespace Packrat

/-- A text with a byte cursor and an index of its lines. -/
structure Source where
  /-- The whole input. -/
  text : Text
  /-- The byte offset of the cursor. -/
  pos : Nat := 0
  /-- The line ends found so far. -/
  lines : LineIndex := {}
  deriving Inhabited

namespace Source

/-- A source over `s` with the cursor at its start. -/
def ofString (s : String) : Source := ⟨Text.ofString s, 0, {}⟩

/-- The characters from the cursor on. -/
def rest (s : Source) : List Char := (s.text.from? s.pos).getD []

/-- Moves the cursor to a character boundary of the text. -/
def setPos? (s : Source) (pos : Nat) : Option Source :=
  if s.text.isBoundary pos then some { s with pos } else none

/-- The number of bytes behind the cursor. -/
def remaining (s : Source) : Nat := s.text.size - s.pos

/-- Whether the cursor has reached the end of the text. -/
def atEnd (s : Source) : Bool := s.text.size ≤ s.pos

/-- Whether the text at the cursor starts with `literal`. -/
def startsWith (s : Source) (literal : String) : Bool := literal.toList.isPrefixOf s.rest

/-- The character at the cursor. -/
def nextChar? (s : Source) : Option Char := s.rest.head?

/-- A view of `length` bytes from `start` on, wherever the cursor is. -/
def slice (s : Source) (start length : Nat) : Slice := ⟨s.text, start, start + length, start⟩

/-- Consumes `n` bytes, as long as there are so many. -/
def consume? (s : Source) (n : Nat) : Option (Slice × Source) :=
  if n ≤ s.remaining then some (s.slice s.pos n, { s with pos := s.pos + n }) else none

/-- The width in bytes of the next `n` characters, or of all that are left. -/
def charsWidth (s : Source) (n : Nat) : Nat := Utf8.width (s.rest.take n)

/-- Consumes `n` characters, or all that are left. -/
def consumeChars? (s : Source) (n : Nat) : Option (Slice × Source) := s.consume? (s.charsWidth n)

/-- A view of the next `n` characters, or of all that are left. -/
def peekChars (s : Source) (n : Nat) : Slice := s.slice s.pos (s.charsWidth n)

/-- The line and the column of a byte offset. -/
def lineAndColumn (s : Source) (pos : Nat) : (Nat × Nat) × Source :=
  let (answer, lines) := s.lines.lineAndColumn s.text pos
  (answer, { s with lines })

/-- The position of a byte offset; an offset past the end is located at the end. -/
def position (s : Source) (offset : Nat) : Position × Source :=
  let ((line, column), s) := s.lineAndColumn offset
  (⟨offset, line, column⟩, s)

end Source

end Packrat
