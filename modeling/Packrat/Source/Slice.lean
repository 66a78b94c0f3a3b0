import Packrat.Text.Quoted
import Packrat.Text.Utf8

/-!
# Slices

A slice is a piece of matched text that remembers where in the input it started. It is a view into
a buffer: neighbouring views of one buffer join into a wider view, any other two are copied into a
buffer of their own. Slices are compared by their text; where they started is information only.
-/

namespace Packrat

/-- A line and a column, both counted from 1, for a byte offset. -/
structure Position where
  /-- The byte offset that was asked for. -/
  offset : Nat
  /-- The line, counted from 1. -/
  line : Nat
  /-- The column, counted from 1 in characters. -/
  column : Nat
  deriving DecidableEq, Repr, Inhabited

/-- The position as it is written in messages. -/
def Position.render (p : Position) : String := s!"line {p.line} char {p.column}"

/-- A view of the bytes `start` to `stop` of a buffer. -/
structure Slice where
  /-- The text that the slice looks into. -/
  buffer : Text
  /-- The first byte of the view. -/
  start : Nat
  /-- The byte just past the view. -/
  stop : Nat
  /-- Where in the input the text was found. -/
  offset : Nat
  deriving Inhabited

namespace Slice

/-- The slice that looks at all of `s`, reported at `offset`. -/
def ofString (s : String) (offset : Nat) : Slice :=
  ⟨Text.ofString s, 0, s.utf8ByteSize, offset⟩

/-- The characters of the view, if it lies within the buffer and on character boundaries. -/
def chars? (s : Slice) : Option (List Char) := s.buffer.cut? s.start s.stop

/-- The text of the view, if it lies within the buffer and on character boundaries. -/
def text? (s : Slice) : Option String := s.chars?.map String.ofList

/-- The text of the view; empty for a view that does not fit its buffer. -/
def text (s : Slice) : String := s.text?.getD ""

/-- The length of the view in bytes. -/
def length (s : Slice) : Nat := s.stop - s.start

/-- Whether the view has no bytes. -/
def isEmpty (s : Slice) : Bool := s.stop ≤ s.start

/-- The two slices looked at as one, possible when the second starts where the first stops. -/
def joined (a b : Slice) : Slice := ⟨a.buffer, a.start, b.stop, a.offset⟩

/-- The two texts in a buffer of their own. -/
def copied (a b : Slice) : Slice := ofString (a.text ++ b.text) a.offset

/-- The text of `a` followed by the text of `b`, found where `a` was found. -/
def concat (a b : Slice) : Slice :=
  if a.buffer == b.buffer && a.stop == b.start then joined a b else copied a b

/-- The quoted text with the offset behind it. -/
def render (s : Slice) : String := s!"{quoted s.text}@{s.offset}"

/-- Slices are equal when their texts are. -/
instance : BEq Slice := ⟨fun a b => a.text == b.text⟩

end Slice

end Packrat
