import Packrat.Atom.Basic
import Packrat.Tree.Render

/-!
# Choices made during a match

Ready-made dynamic expressions: they read the text that was captured, or test the place that the
match has reached, and pick the expression to go on with.
-/

namespace Packrat

/-- The number that a text of decimal digits stands for, if it fits 64 bits. A plus sign may stand
in front. -/
def countOfText? (s : String) : Option Nat :=
  let digits := match s.toList with
    | '+' :: rest => rest
    | cs => cs
  if digits.isEmpty || !digits.all Char.isDigit then none
  else
    let value := digits.foldl (fun acc c => acc * 10 + (c.toNat - '0'.toNat)) 0
    if value < UInt64.size then some value else none

/-- A test of the place that a match has reached. -/
inductive Condition where
  /-- A value was captured under the name. -/
  | captured (name : String)
  /-- The text at the cursor starts with this one. -/
  | startsWith (text : String)
  /-- There is a next character and it is one of these. -/
  | nextIn (chars : String)
  /-- The cursor is at this offset or behind it. -/
  | posAtLeast (pos : Nat)
  /-- At least so many bytes are left. -/
  | remainingAtLeast (bytes : Nat)
  /-- The cursor is at the end. -/
  | atEnd

/-- Whether the condition holds. -/
def Condition.holds (source : Source) (captures : Captures) : Condition → Bool
  | .captured name => (captures.get? name).isSome
  | .startsWith text => source.startsWith text
  | .nextIn chars => source.nextChar?.any chars.toList.contains
  | .posAtLeast pos => pos ≤ source.pos
  | .remainingAtLeast bytes => bytes ≤ source.remaining
  | .atEnd => source.atEnd

namespace Atom

/-- One expression where the condition holds, else the other. -/
def ifThenElse (condition : Condition) (yes no : Atom) : Atom :=
  .dynamic fun source captures => if condition.holds source captures then yes else no

/-- The text captured under `name` as a literal, or `otherwise` if no text was captured. -/
def captured (name : String) (otherwise : Atom) : Atom :=
  .dynamic fun _ captures =>
    match (captures.get? name).bind Tree.text? with
    | some text => .literal text
    | none => otherwise

/-- As many rounds as the number captured under `name`, or none if no number was captured. -/
def counted (name : String) (body : Atom) : Atom :=
  .dynamic fun _ captures =>
    let count := (((captures.get? name).bind Tree.text?).bind countOfText?).getD 0
    body.rounds count (some count)

/-- The written form of the value captured under `name`, or a question mark. -/
def capturedShown (name : String) : Atom :=
  .dynamic fun _ captures => .literal (((captures.get? name).map Tree.render).getD "?")

/-- The next `n` characters, whatever they are. -/
def again (n : Nat) : Atom := .dynamic fun source _ => .literal (source.peekChars n).text

end Atom

end Packrat
