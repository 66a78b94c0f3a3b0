import Packrat.Source.Slice

/-!
# Trees

The result of a match: nothing, a piece of text, a list, or a map from names to trees. The entries
of a map are kept in ascending order of their keys, each key once.
-/

namespace Packrat

/-- What a match yields. -/
inductive Tree where
  /-- Nothing was kept. -/
  | unit
  /-- Matched text. -/
  | str (slice : Slice)
  /-- Repeated values, in the order of the input. -/
  | list (items : List Tree)
  /-- Named values, in ascending order of the names. -/
  | map (entries : List (String × Tree))
  deriving Inhabited

namespace Tree

/-- The entries with `key` set to `value`, in place of the value that it had. -/
def insertEntry (key : String) (value : Tree) : List (String × Tree) → List (String × Tree)
  | [] => [(key, value)]
  | (k, v) :: rest =>
    match compare key k with
    | .lt => (key, value) :: (k, v) :: rest
    | .eq => (key, value) :: rest
    | .gt => (k, v) :: insertEntry key value rest

/-- The entries of the first map, with those of the second set over them. -/
def insertEntries (entries more : List (String × Tree)) : List (String × Tree) :=
  more.foldl (fun acc entry => insertEntry entry.1 entry.2 acc) entries

/-- A map of the given entries; a key given twice keeps its last value. -/
def ofEntries (entries : List (String × Tree)) : Tree := .map (insertEntries [] entries)

/-- A text found at the start of the input. -/
def ofString (s : String) : Tree := .str (Slice.ofString s 0)

/-- Whether nothing was kept. -/
def isUnit : Tree → Bool
  | .unit => true
  | _ => false

/-- Whether the tree is a map. -/
def isMap : Tree → Bool
  | .map _ => true
  | _ => false

/-- Whether the tree is a list. -/
def isList : Tree → Bool
  | .list _ => true
  | _ => false

/-- The slice, when the tree is matched text. -/
def slice? : Tree → Option Slice
  | .str s => some s
  | _ => none

/-- The text, when the tree is matched text. -/
def text? (t : Tree) : Option String := t.slice?.map Slice.text

/-- The items, when the tree is a list. -/
def items? : Tree → Option (List Tree)
  | .list items => some items
  | _ => none

/-- The entries, when the tree is a map. -/
def entries? : Tree → Option (List (String × Tree))
  | .map entries => some entries
  | _ => none

/-- The value of a key, when the tree is a map that has it. -/
def get? (t : Tree) (key : String) : Option Tree := t.entries?.bind (·.lookup key)

mutual

/-- Trees are equal when they have the same shape, the same keys and the same texts. -/
def beq : Tree → Tree → Bool
  | .unit, .unit => true
  | .str a, .str b => a == b
  | .list as, .list bs => beqItems as bs
  | .map as, .map bs => beqEntries as bs
  | _, _ => false

/-- Lists of trees are equal item by item. -/
def beqItems : List Tree → List Tree → Bool
  | [], [] => true
  | a :: as, b :: bs => beq a b && beqItems as bs
  | _, _ => false

/-- Maps are equal entry by entry. -/
def beqEntries : List (String × Tree) → List (String × Tree) → Bool
  | [], [] => true
  | (j, a) :: as, (k, b) :: bs => j == k && beq a b && beqEntries as bs
  | _, _ => false

end

instance : BEq Tree := ⟨beq⟩

end Tree

end Packrat
