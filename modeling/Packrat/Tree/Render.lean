import Packrat.Text.Quoted
import Packrat.Tree.Basic

/-!
# Written trees

A tree has two written forms. The first is for readers: texts are quoted and carry the offset at
which they were found, keys are bare. The second is compact JSON, which drops the offsets.
-/

namespace Packrat.Tree

mutual

/-- The tree with its offsets. -/
def render : Tree → String
  | .unit => "nil"
  | .str s => s.render
  | .list items => "[" ++ ", ".intercalate (renderItems items) ++ "]"
  | .map entries => "\x7b" ++ ", ".intercalate (renderEntries entries) ++ "\x7d"

/-- Each item with its offsets. -/
def renderItems : List Tree → List String
  | [] => []
  | t :: rest => t.render :: renderItems rest

/-- Each entry as its key, a colon and its value. -/
def renderEntries : List (String × Tree) → List String
  | [] => []
  | (k, t) :: rest => (k ++ ": " ++ t.render) :: renderEntries rest

end

mutual

/-- The tree as compact JSON. -/
def json : Tree → String
  | .unit => "null"
  | .str s => jsonString s.text
  | .list items => "[" ++ ",".intercalate (jsonItems items) ++ "]"
  | .map entries => "\x7b" ++ ",".intercalate (jsonEntries entries) ++ "\x7d"

/-- Each item as compact JSON. -/
def jsonItems : List Tree → List String
  | [] => []
  | t :: rest => t.json :: jsonItems rest

/-- Each entry as a quoted key, a colon and its value. -/
def jsonEntries : List (String × Tree) → List String
  | [] => []
  | (k, t) :: rest => (jsonString k ++ ":" ++ t.json) :: jsonEntries rest

end

end Packrat.Tree
