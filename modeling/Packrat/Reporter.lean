import Packrat.Cause.Basic

/-!
# Reporters

Every failure of a match is shown to a reporter, and every success is announced to it. When the
match as a whole fails, the reporter picks the cause that the caller gets to see.

* The *deepest* reporter picks the cause furthest into the input. Causes recorded inside a choice
  are forgotten once a branch of the choice matches.
* The *tree* reporter picks the cause of the whole match, with all that led to it.
* The *contextual* reporter picks the deepest cause since the last success that was not behind an
  earlier one.
-/

namespace Packrat

/-- What a reporter is told during a match. -/
inductive Report where
  /-- An expression failed. -/
  | recorded (cause : Cause)
  /-- An expression matched up to the offset. -/
  | succeeded (offset : Nat)
  /-- A choice is about to try its first branch. -/
  | choiceStarted
  /-- A choice is decided. -/
  | choiceFinished (matched : Bool)

/-- The deepest cause so far, and what it was when each open choice started. -/
structure Deepest where
  /-- The deepest cause; among equals, the one recorded first. -/
  tracked : Option Cause := none
  /-- What was tracked when each open choice started, the innermost first. -/
  choices : List (Option Cause) := []

namespace Deepest

/-- Tracks the cause if it lies deeper than the one tracked. -/
def record (d : Deepest) (cause : Cause) : Deepest :=
  if d.tracked.all (·.offset < cause.offset) then { d with tracked := some cause } else d

/-- Remembers what is tracked at the start of a choice. -/
def startChoice (d : Deepest) : Deepest := { d with choices := d.tracked :: d.choices }

/-- Goes back to what was tracked at the start of the choice, if a branch of it matched. -/
def finishChoice (d : Deepest) (matched : Bool) : Deepest :=
  match d.choices with
  | [] => d
  | before :: choices => { tracked := if matched then before else d.tracked, choices }

/-- What the reporter makes of a report. -/
def observe (d : Deepest) : Report → Deepest
  | .recorded cause => d.record cause
  | .succeeded _ => d
  | .choiceStarted => d.startChoice
  | .choiceFinished matched => d.finishChoice matched

/-- The tracked cause if it lies deeper than the root, else the root. -/
def pick (d : Deepest) (root : Cause) : Cause :=
  match d.tracked with
  | some cause => if root.offset < cause.offset then cause else root
  | none => root

end Deepest

/-- The deepest cause since the last reset. -/
structure Contextual where
  /-- The deepest cause since then; among equals, the one recorded first. -/
  tracked : Option Cause := none
  /-- The offset of the success that reset the reporter last. -/
  lastReset : Nat := 0

namespace Contextual

/-- What the reporter makes of a report. -/
def observe (c : Contextual) : Report → Contextual
  | .recorded cause =>
    if c.tracked.all (·.offset < cause.offset) then { c with tracked := some cause } else c
  | .succeeded offset => if offset < c.lastReset then c else ⟨none, offset⟩
  | .choiceStarted => c
  | .choiceFinished _ => c

/-- The tracked cause if it lies at least as deep as the root, else the root. -/
def pick (c : Contextual) (root : Cause) : Cause :=
  match c.tracked with
  | some cause => if root.offset ≤ cause.offset then cause else root
  | none => root

end Contextual

/-- The kinds of reporter. -/
inductive ReporterKind where
  /-- The cause furthest into the input. -/
  | deepest
  /-- The cause of the whole match. -/
  | tree
  /-- The deepest cause since the last reset. -/
  | contextual
  deriving DecidableEq, Repr, Inhabited

namespace ReporterKind

/-- The name of a kind. -/
def name : ReporterKind → String
  | .deepest => "deepest"
  | .tree => "tree"
  | .contextual => "contextual"

/-- All kinds. -/
def all : List ReporterKind := [.deepest, .tree, .contextual]

/-- The kind with a name. -/
def ofName? (s : String) : Option ReporterKind := all.find? (·.name == s)

/-- Every kind is found under its name. -/
theorem ofName?_name (kind : ReporterKind) : ofName? kind.name = some kind := by
  cases kind <;> rfl

/-- What is said of a name that no kind has. -/
def unknownNameMessage : String := "Matching variant not found"

end ReporterKind

/-- A reporter and what it has been told so far. -/
inductive Reporter where
  /-- Picks the cause furthest into the input. -/
  | deepest (state : Deepest)
  /-- Picks the cause of the whole match. -/
  | tree
  /-- Picks the deepest cause since the last reset. -/
  | contextual (state : Contextual)

/-- A reporter of the kind that has been told nothing. -/
def ReporterKind.start : ReporterKind → Reporter
  | .deepest => .deepest {}
  | .tree => .tree
  | .contextual => .contextual {}

namespace Reporter

/-- Tells the reporter something. -/
def observe : Reporter → Report → Reporter
  | .deepest state, report => .deepest (state.observe report)
  | .tree, _ => .tree
  | .contextual state, report => .contextual (state.observe report)

/-- The cause to report for a match that failed with `root`. -/
def pick : Reporter → Cause → Cause
  | .deepest state, root => state.pick root
  | .tree, root => root
  | .contextual state, root => state.pick root

/-- The reporter after it has picked: what it tracked is forgotten. -/
def finished : Reporter → Reporter
  | .deepest _ => .deepest {}
  | .tree => .tree
  | .contextual state => .contextual { state with tracked := none }

end Reporter

end Packrat
