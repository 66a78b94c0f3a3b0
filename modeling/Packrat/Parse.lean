import Packrat.Matcher.Apply
import Packrat.Options.Basic

/-!
# Parsing

A parse matches an expression against all of a text, or against the start of it if the options allow
the rest to be left behind. A reference that leads nowhere spoils the parse as soon as it is
reached, whatever comes of the match. The bodies of rules that were built during a parse are handed
back, so that the next parse with the same grammar need not build them again.
-/

namespace Packrat

/-- What a parse comes to. -/
inductive Outcome where
  /-- The parse was broken off. -/
  | stopped (reason : Stop)
  /-- The parse failed. -/
  | rejected (failure : Failure)
  /-- The parse succeeded, and these keys were overwritten on the way. -/
  | accepted (tree : Tree) (overwritten : List String)

/-- A parse that is over. -/
structure Run where
  /-- What it came to. -/
  outcome : Outcome
  /-- What happened in it, in order. -/
  trace : List Event
  /-- The bodies of rules built so far. -/
  bodies : List (Nat × Atom)

/-- The number of characters shown of the input that was left behind. -/
def previewLength : Nat := 10

/-- The session at the start of a parse. -/
def Session.start (text : String) (options : Options) (bodies : List (Nat × Atom)) : Session :=
  { source := Source.ofString text, bodies, reporter := options.reporter.start
    warn := options.warn }

/-- The matcher of an expression that refers to the rules of a table, for a text of given size. -/
def RuleTable.matcher (table : RuleTable) (bytes : Nat) (entry : Atom) : Matcher Raw :=
  entry.matcher (table.applyRule (table.depthBound bytes))

/-- The match that a parse is made of. -/
def matchEntry (table : RuleTable) (bodies : List (Nat × Atom)) (entry : Atom) (text : String)
    (options : Options) : Reply Raw :=
  table.matcher text.utf8ByteSize entry (Session.start text options bodies)

/-- Turns the outcome of the match into a tree, or fails if input is left behind that may not be. -/
def conclude (allowRest : Bool) (outcome : Except Cause Raw) : Matcher Tree := do
  let raw ← Matcher.ofResult outcome
  let source ← Matcher.source
  if allowRest || source.atEnd then do
    let tree ← Matcher.flatten false raw
    Matcher.emit (.succeeded source.pos)
    return tree
  else Matcher.refuse (.unconsumed (source.peekChars previewLength)) source.pos []

/-- A session with the counts added to its trace. -/
def Session.withStatistics (s : Session) : Session :=
  { s with trace := .statistics s.memo.entries.size s.memo.statistics :: s.trace }

/-- The parse that ends with the session. -/
def Session.finish (s : Session) (outcome : Outcome) : Run := ⟨outcome, s.trace.reverse, s.bodies⟩

/-- The parse that fails with the cause picked by the reporter, located in the text. -/
def Session.reject (s : Session) (root : Cause) : Run :=
  let (cause, source) := (s.reporter.pick root).locate s.source
  { s with source, trace := .failed cause :: s.trace }.finish (.rejected (.parse cause))

/-- The parse that a match comes to. -/
def settle (options : Options) (outcome : Except Cause Raw) (s : Session) : Run :=
  let s := s.withStatistics
  match s.undefined with
  | some name => s.finish (.rejected (.grammar (.undefinedRule name)))
  | none =>
    match conclude options.allowRest outcome s with
    | .stopped reason => s.finish (.stopped reason)
    | .failed root s => s.reject root
    | .matched tree s => s.finish (.accepted tree s.overwritten.reverse)

/-- Parses a text with an expression that refers to the rules of a table. -/
def run (table : RuleTable) (bodies : List (Nat × Atom)) (entry : Atom) (text : String)
    (options : Options) : Run :=
  match matchEntry table bodies entry text options with
  | .stopped reason => ⟨.stopped reason, [], bodies⟩
  | .failed cause s => settle options (.error cause) s
  | .matched raw s => settle options (.ok raw) s

/-- Parses a text with an expression outside of any grammar. -/
def Atom.parse (atom : Atom) (text : String) (options : Options) : Run :=
  run .empty [] atom text options

namespace Grammar

/-- Parses a text with the grammar. -/
def parse (grammar : Grammar) (bodies : List (Nat × Atom)) (text : String) (options : Options) :
    Run :=
  run grammar.table bodies grammar.rootAtom text options

/-- Parses a text with another rule of the grammar than the root. -/
def parseRule (grammar : Grammar) (bodies : List (Nat × Atom)) (name text : String) : Run :=
  run grammar.table bodies (grammar.table.rules.rule name) text {}

/-- The body of a rule, if it is defined, what was built for it, and the bodies known then. -/
def body? (grammar : Grammar) (bodies : List (Nat × Atom)) (name : String) :
    Option (Atom × List (Nat × Atom) × Option Event) :=
  (grammar.table.names.idxOf? name).bind fun index => grammar.table.body? index bodies

end Grammar

end Packrat
