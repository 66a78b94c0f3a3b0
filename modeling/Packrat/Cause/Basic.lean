import Packrat.Atom.Basic

/-!
# Causes of failure

A cause says what went wrong at which offset. An expression made of others attaches the causes of
the parts that failed, so the cause of a failed match is a tree. Messages keep what they are about
and are only put into words when they are shown.
-/

namespace Packrat

/-- What went wrong. -/
inductive Message where
  /-- The input ends too early. -/
  | prematureEnd
  /-- The input has other text than the literal. -/
  | expected (text : String) (got : Slice)
  /-- The next character is not of the class. -/
  | noMatch (atom : Atom)
  /-- A part of a sequence failed. -/
  | sequence (atom : Atom)
  /-- Every branch of a choice failed. -/
  | alternatives (atom : Atom)
  /-- A repetition has too few rounds. -/
  | atLeast (min : Nat) (atom : Atom)
  /-- A lookahead found the opposite of what it asks for. -/
  | lookahead (positive : Bool) (atom : Atom)
  /-- The match left input behind. -/
  | unconsumed (rest : Slice)
  /-- An operand is missing. -/
  | operandExpected (atom : Atom)
  /-- A rule failed without an attempt at its body. -/
  | ruleFailed (name : String)
  /-- A reference to a rule that does not exist. -/
  | undefinedRule (name : String)
  /-- Anything else. -/
  | custom (text : String)
  deriving Inhabited

/-- A failure at an offset, with the failures that led to it. -/
structure Cause where
  /-- What went wrong. -/
  message : Message
  /-- Where it went wrong, in bytes. -/
  offset : Nat
  /-- The line and the column of the offset, once they are resolved. -/
  position : Option Position := none
  /-- The innermost label around the expression that failed. -/
  label : Option String := none
  /-- The failures that led to this one, in the order in which they happened. -/
  children : List Cause := []
  deriving Inhabited

namespace Cause

/-- A cause that no other cause led to. -/
def leaf (message : Message) (offset : Nat) : Cause := { message, offset }

mutual

/-- The cause in the tree that lies deepest in the input; among equals, the first in preorder. -/
def deepest : Cause → Cause
  | ⟨message, offset, position, label, children⟩ =>
    deepestAmong ⟨message, offset, position, label, children⟩ children

/-- The deepest of `best` and the causes in the given trees; among equals, the first. -/
def deepestAmong (best : Cause) : List Cause → Cause
  | [] => best
  | child :: rest =>
    let candidate := child.deepest
    deepestAmong (if best.offset < candidate.offset then candidate else best) rest

end

mutual

/-- Resolves the line and the column of every cause in the tree. -/
def locate : Cause → Source → Cause × Source
  | ⟨message, offset, _, label, children⟩, source =>
    let (position, source) := source.position offset
    let (children, source) := locateAll children source
    (⟨message, offset, some position, label, children⟩, source)

/-- Resolves the causes of several trees, one tree after the other. -/
def locateAll : List Cause → Source → List Cause × Source
  | [], source => ([], source)
  | child :: rest, source =>
    let (child, source) := child.locate source
    let (rest, source) := locateAll rest source
    (child :: rest, source)

end

mutual

/-- Every cause of the tree with its depth, in preorder. -/
def preorder (depth : Nat) : Cause → List (Nat × Cause)
  | ⟨message, offset, position, label, children⟩ =>
    (depth, ⟨message, offset, position, label, children⟩) :: preorderAll (depth + 1) children

/-- Every cause of the given trees, tree after tree. -/
def preorderAll (depth : Nat) : List Cause → List (Nat × Cause)
  | [] => []
  | child :: rest => child.preorder depth ++ preorderAll depth rest

end

end Cause

end Packrat
