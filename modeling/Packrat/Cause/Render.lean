import Packrat.Atom.Render
import Packrat.Cause.Basic

/-!
# Causes in words

The wording of every message stands here. A cause is shown as its label, its message and its place;
a tree of causes is drawn with one cause on a line.
-/

namespace Packrat

/-- The message in words. -/
def Message.render : Message → String
  | .prematureEnd => "Premature end of input"
  | .expected text got => s!"Expected {quoted text}, but got {quoted got.text}"
  | .noMatch atom => s!"Failed to match {atom.render}"
  | .sequence atom => s!"Failed to match sequence ({atom.render})"
  | .alternatives atom =>
    "Expected one of [" ++ ", ".intercalate (atom.choiceBranches.map Atom.render) ++ "]"
  | .atLeast min atom => s!"Expected at least {min} of {atom.render}"
  | .lookahead true atom => s!"Input should start with {atom.render}"
  | .lookahead false atom => s!"Input should not start with {atom.render}"
  | .unconsumed rest => s!"Don't know what to do with {quoted rest.text}"
  | .operandExpected atom => s!"{atom.render} was expected"
  | .ruleFailed name => s!"Failed to match {upperText name}"
  | .undefinedRule name => s!"Rule {quoted name} is not defined"
  | .custom text => text

namespace Cause

/-- The place of a cause in words. -/
def place (cause : Cause) : String :=
  match cause.position with
  | some position => s!" at {position.render}."
  | none => s!" at offset {cause.offset}."

/-- The cause in words, without the causes that led to it. -/
def render (cause : Cause) : String :=
  let tag := match cause.label with
    | some label => label ++ ": "
    | none => ""
  tag ++ cause.message.render ++ cause.place

/-- What is drawn in front of the lines below a cause that is, or is not, the last of its parent. -/
def indent (isLast : Bool) : String := if isLast then "   " else "|  "

/-- What is drawn in front of a cause that is, or is not, the last of its parent. -/
def branchMark (isLast : Bool) : String := if isLast then "\x60- " else "|- "

mutual

/-- The lines of a tree of causes. The first line starts with `mark`, the others with `margin`. -/
def lines (mark margin : String) : Cause → List String
  | ⟨message, offset, position, label, children⟩ =>
    (mark ++ render ⟨message, offset, position, label, children⟩) :: childLines margin children

/-- The lines of the trees below one cause, all of which start with `margin`. -/
def childLines (margin : String) : List Cause → List String
  | [] => []
  | child :: rest =>
    let isLast := rest.isEmpty
    child.lines (margin ++ branchMark isLast) (margin ++ indent isLast) ++ childLines margin rest

end

/-- The tree of causes, one cause on a line. -/
def drawing (cause : Cause) : String :=
  String.join ((cause.lines "" "").map (· ++ "\n"))

end Cause

end Packrat
