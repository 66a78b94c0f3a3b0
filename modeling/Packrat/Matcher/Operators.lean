import Packrat.Matcher.Combinators
import Packrat.Tree.Transform

/-!
# Operator expressions

Operands joined by binary operators are read by precedence climbing. Reading an operand, the
operators behind it are taken as long as they bind at least as tightly as asked for; an operator
that binds looser is put back for the level above.
-/

namespace Packrat.Matcher

/-- One operand. -/
def operand (part : Atom) (body : Matcher Raw) : Matcher Tree := do
  match ← attempt body with
  | .ok raw => flatten true raw
  | .error cause => do refuse (.operandExpected part) (← position) [cause]

/-- The first operator of the table that matches here, if one does. -/
def operator : List (Fixity × Matcher Raw) → Matcher (Option (Tree × Fixity))
  | [] => return none
  | (fixity, body) :: rest => do
    match ← attempt body with
    | .ok raw => return some (← flatten true raw, fixity)
    | .error _ => operator rest

/-- Goes on behind the operand `left` with operators of precedence `floor` or tighter. At most
`bound` operators are read in a row or inside each other. -/
def climbFrom (element : Matcher Tree) (next : Matcher (Option (Tree × Fixity)))
    (combine : Tree → Tree → Tree → Tree) :
    (bound : Nat) → (floor : UInt32) → (left : Tree) → Matcher Tree
  | 0, _, _ => stop .spent
  | bound + 1, floor, left => do
    let before ← position
    match ← next with
    | none => return left
    | some (symbol, fixity) =>
      if fixity.precedence < floor then do
        moveTo before
        return left
      else do
        let first ← element
        let right ← climbFrom element next combine bound fixity.rightFloor first
        climbFrom element next combine bound floor (combine left symbol right)

/-- An operand and the operators of precedence `floor` or tighter behind it. -/
def climb (element : Matcher Tree) (next : Matcher (Option (Tree × Fixity)))
    (combine : Tree → Tree → Tree → Tree) (bound : Nat) (floor : UInt32) : Matcher Tree := do
  climbFrom element next combine bound floor (← element)

/-- A bound on the operators read in a row or inside each other. An operator and the operand behind
it consume input together, or else they may be read again at the same place, which comes to an end
only if a capture makes it. Readings of that kind are taken to be endless after 2^32 of them. -/
def operatorBound (bytes : Nat) : Nat := (bytes + 1) * UInt32.size

/-- Operands joined by the operators of a table. -/
def operators (part : Atom) (body : Matcher Raw) (table : List (Fixity × Matcher Raw))
    (combine : Option (Tree → Tree → Tree → Tree)) : Matcher Raw := do
  let bound := operatorBound (← source).remaining
  let tree ← climb (operand part body) (operator table) (combine.getD Tree.operation) bound 0
  return .leaf tree

end Packrat.Matcher
