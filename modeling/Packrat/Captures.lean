import Packrat.Tree.Basic

/-!
# Captures

Values remembered during a match for later choices. Scopes nest: a value is looked up from the
innermost scope outwards, and closing a scope forgets what was captured in it. The outermost scope
is never closed.
-/

namespace Packrat

/-- The values captured in one scope, each name once. -/
abbrev Scope := List (String × Tree)

/-- The open scopes. -/
structure Captures where
  /-- The scope that captures go to. -/
  innermost : Scope := []
  /-- The scopes around it, from the inside out. -/
  outer : List Scope := []

namespace Captures

/-- The innermost value captured under `name`. -/
def get? (captures : Captures) (name : String) : Option Tree :=
  (captures.innermost :: captures.outer).findSome? (·.lookup name)

/-- Captures a value in the innermost scope, in place of the one captured there before. -/
def insert (captures : Captures) (name : String) (value : Tree) : Captures :=
  { captures with innermost := (name, value) :: captures.innermost.filter (·.1 != name) }

/-- Opens a scope. -/
def openScope (captures : Captures) : Captures :=
  ⟨[], captures.innermost :: captures.outer⟩

/-- Closes the innermost scope, unless it is the only one. -/
def closeScope (captures : Captures) : Captures :=
  match captures.outer with
  | [] => captures
  | scope :: outer => ⟨scope, outer⟩

/-- Closing a scope that was just opened leaves what there was before. -/
@[simp] theorem closeScope_openScope (captures : Captures) :
    captures.openScope.closeScope = captures := rfl

/-- A capture leaves the scopes around the innermost one alone. -/
@[simp] theorem insert_outer (captures : Captures) (name : String) (value : Tree) :
    (captures.insert name value).outer = captures.outer := rfl

/-- A new scope hides nothing. -/
@[simp] theorem get?_openScope (captures : Captures) (name : String) :
    captures.openScope.get? name = captures.get? name := rfl

/-- Leaving out another name does not change what a scope has under this one. -/
theorem lookup_filter_ne {name other : String} (h : other ≠ name) (scope : Scope) :
    (scope.filter (·.1 != name)).lookup other = scope.lookup other := by
  induction scope with
  | nil => rfl
  | cons entry rest ih =>
    obtain ⟨key, value⟩ := entry
    by_cases hk : key = name
    · subst hk
      have differs : (other == key) = false := by simpa using h
      simp [List.lookup_cons, ih, differs]
    · simp [List.lookup_cons, ih, hk]

/-- A captured value is found under its name, and nothing else changes. -/
theorem get?_insert (captures : Captures) (name other : String) (value : Tree) :
    (captures.insert name value).get? other
      = if other = name then some value else captures.get? other := by
  by_cases h : other = name
  · simp [get?, insert, h]
  · have differs : (other == name) = false := by simpa using h
    simp only [get?, insert, List.findSome?_cons, List.lookup_cons, differs, lookup_filter_ne h,
      if_neg h]

end Captures

end Packrat
