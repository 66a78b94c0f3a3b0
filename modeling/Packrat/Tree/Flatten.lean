import Packrat.Tree.Basic

/-!
# Flattening

A match first yields a raw value that has the shape of the expression: nested sequences,
repetitions and optional parts around trees. Flattening reduces it to one tree.

* The parts of a sequence are merged from left to right. Maps merge into one map in which the later
  value of a key wins, lists are appended, texts are concatenated, a map joins a list on its side,
  text next to a map or a list is dropped, and unit gives way to anything.
* A repetition that yielded maps keeps only the maps, as a list; else one that yielded lists
  appends them; else its parts are merged like those of a sequence.
* An optional part is its value, or unit.

Every key whose value was overwritten while merging is reported, in the order in which it happened.
-/

namespace Packrat

/-- What an expression yields before flattening. -/
inductive Raw where
  /-- A value that is flat already. -/
  | leaf (tree : Tree)
  /-- The values of the parts of a sequence. -/
  | sequence (parts : List Raw)
  /-- The values of each round of a repetition. -/
  | repetition (rounds : List Raw)
  /-- The value of an optional part, if it matched. -/
  | optional (value : Option Raw)
  deriving Inhabited

/-- A flat value together with the keys that were overwritten on the way to it. -/
structure Flat where
  /-- The flat value. -/
  tree : Tree
  /-- The overwritten keys, the earliest first. -/
  overwritten : List String := []

namespace Tree

/-- The keys of `more` that `entries` has as well, in the order of `more`. -/
def sharedKeys (entries more : List (String × Tree)) : List String :=
  (more.map (·.1)).filter fun key => (entries.lookup key).isSome

/-- Merges two neighbouring values of a sequence. -/
def merge : Tree → Tree → Flat
  | .unit, right => ⟨right, []⟩
  | left, .unit => ⟨left, []⟩
  | .map left, .map right => ⟨.map (insertEntries left right), sharedKeys left right⟩
  | .list left, .list right => ⟨.list (left ++ right), []⟩
  | .str left, .str right => ⟨.str (left.concat right), []⟩
  | .str _, right => ⟨right, []⟩
  | left, .str _ => ⟨left, []⟩
  | .map left, .list right => ⟨.list (.map left :: right), []⟩
  | .list left, .map right => ⟨.list (left ++ [.map right]), []⟩

/-- Merges a run of values, from left to right, into `tree`. -/
def mergeInto (tree : Tree) : List Tree → Flat
  | [] => ⟨tree, []⟩
  | next :: rest =>
    let merged := merge tree next
    let whole := mergeInto merged.tree rest
    ⟨whole.tree, merged.overwritten ++ whole.overwritten⟩

/-- Merges the values of a sequence. -/
def mergeAll (trees : List Tree) : Flat := mergeInto .unit trees

/-- Joins the values of the rounds of a repetition. A repetition of no rounds is an empty list if
its value is about to be stored under a name. -/
def joinRounds (named : Bool) (rounds : List Tree) : Flat :=
  if rounds.any isMap then ⟨.list (rounds.filter isMap), []⟩
  else if rounds.any isList then ⟨.list (rounds.flatMap fun t => t.items?.getD []), []⟩
  else if named && rounds.isEmpty then ⟨.list [], []⟩
  else mergeAll rounds

end Tree

namespace Raw

/-- The raw value of an expression that keeps nothing. -/
def unit : Raw := .leaf .unit

mutual

/-- The flat value; `named` says that it is about to be stored under a name. -/
def flatten (named : Bool) : Raw → Flat
  | .leaf tree => ⟨tree, []⟩
  | .sequence parts =>
    let (trees, inner) := flattenAll parts
    let merged := Tree.mergeAll trees
    ⟨merged.tree, inner ++ merged.overwritten⟩
  | .repetition rounds =>
    let (trees, inner) := flattenAll rounds
    let joined := Tree.joinRounds named trees
    ⟨joined.tree, inner ++ joined.overwritten⟩
  | .optional none => ⟨.unit, []⟩
  | .optional (some value) => flatten false value

/-- The flat values of the parts, and all the keys overwritten in them. -/
def flattenAll : List Raw → List Tree × List String
  | [] => ([], [])
  | part :: rest =>
    let flat := flatten false part
    let (trees, overwritten) := flattenAll rest
    (flat.tree :: trees, flat.overwritten ++ overwritten)

end

end Raw

/-- What is said of an overwritten key. -/
def overwrittenMessage (key : String) : String :=
  s!"duplicate subtrees while merging result: key {quoted key} was overwritten"

end Packrat
