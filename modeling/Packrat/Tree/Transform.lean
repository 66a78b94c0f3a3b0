import Packrat.Tree.Render

/-!
# Transformations of trees

Ready-made functions to shape the value of an expression, and ready-made ways to combine the two
operands of an operator.
-/

namespace Packrat.Tree

/-- The tree as the only item of a list. -/
def asItem (t : Tree) : Tree := .list [t]

/-- The tree as the only entry of a map. -/
def under (key : String) (t : Tree) : Tree := .map [(key, t)]

/-- The value of a key, or unit. -/
def getOrUnit (key : String) (t : Tree) : Tree := (t.get? key).getD .unit

/-- Matched text with the letters a to z in upper case, found where it was found. -/
def upperAscii : Tree → Tree
  | .str s => .str (Slice.ofString (s.text.map Char.toUpper) s.offset)
  | t => t

/-- The size as a decimal text: the bytes of a text, the items of a list, the entries of a map. -/
def measure : Tree → Tree
  | .unit => ofString "0"
  | .str s => .str (Slice.ofString (toString s.length) s.offset)
  | .list items => ofString (toString items.length)
  | .map entries => ofString (toString entries.length)

/-- A list from back to front. -/
def reversed : Tree → Tree
  | .list items => .list items.reverse
  | t => t

/-- The values of a map in the order of its keys. -/
def values : Tree → Tree
  | .map entries => .list (entries.map (·.2))
  | t => t

/-- The written form of the tree as a text. -/
def shown (t : Tree) : Tree := ofString t.render

/-- The operands and the operator as a map with the keys `l`, `o` and `r`. -/
def operation (left operator right : Tree) : Tree :=
  ofEntries [("l", left), ("o", operator), ("r", right)]

/-- The operands and the operator as a list. -/
def triple (left operator right : Tree) : Tree := .list [left, operator, right]

/-- A tree as part of a text: its own text, or its written form. -/
def plain (t : Tree) : String := t.text?.getD t.render

/-- The operator in front of its operands, in parentheses. -/
def operatorFirst (left operator right : Tree) : Tree :=
  ofString s!"({operator.plain} {left.plain} {right.plain})"

end Packrat.Tree
