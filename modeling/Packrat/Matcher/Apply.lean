import Packrat.Grammar.Basic
import Packrat.Matcher.Memoized
import Packrat.Matcher.Operators

/-!
# Matching expressions

Every expression has a matcher, made of the matchers of its parts. The one thing that an expression
does not contain is what a reference leads to, so that is a parameter: `Atom.matcher` is a recursion
on the expression, and `RuleTable.applyRule` one on a bound on how deep rules are nested in each
other.
-/

namespace Packrat

open Matcher

mutual

/-- The matcher of an expression, given the matcher of references. -/
def Atom.matcher (apply : RuleRef → Matcher Raw) : Atom → Matcher Raw
  | .literal text => guarded (Matcher.literal text)
  | .char test => guarded (character (.char test) test.accepts)
  | .sequence parts =>
    guarded do return .sequence (← inOrder (.sequence parts) (Atom.matchers apply parts))
  | .choice branches => guarded (Matcher.choice (.choice branches) (Atom.matchers apply branches))
  | .repetition body min max optional =>
    guarded (Matcher.repetition body (body.matcher apply) min max optional)
  | .lookahead body positive => guarded (Matcher.lookahead body (body.matcher apply) positive)
  | .named body name => guarded (Matcher.named (body.matcher apply) name)
  | .rule ref => guarded (apply ref)
  | .ignore body => guarded do
    let _ ← body.matcher apply
    return .unit
  | .map body transform => guarded (mapped (body.matcher apply) transform)
  | .mark body => guarded (marked (body.matcher apply))
  | .capture body name => guarded (Matcher.captured (body.matcher apply) name)
  | .scope body => guarded (inScope (body.matcher apply))
  | .dynamic pick => guarded fun session =>
    (pick session.source session.captures).matcher apply session
  | .operators operand table combine =>
    guarded (Matcher.operators operand (operand.matcher apply) (Atom.operatorMatchers apply table)
      combine)
  | .label body text => guarded (labelled (body.matcher apply) text)
  | .halt => guarded Matcher.halt

/-- The matcher of each expression. -/
def Atom.matchers (apply : RuleRef → Matcher Raw) : List Atom → List (Matcher Raw)
  | [] => []
  | atom :: rest => atom.matcher apply :: Atom.matchers apply rest

/-- The matcher of each operator of a table. -/
def Atom.operatorMatchers (apply : RuleRef → Matcher Raw) :
    List (Fixity × Atom) → List (Fixity × Matcher Raw)
  | [] => []
  | (fixity, atom) :: rest => (fixity, atom.matcher apply) :: Atom.operatorMatchers apply rest

end

namespace RuleTable

/-- The body of a rule, built now if it was not built before. -/
def body? (table : RuleTable) (index : Nat) (bodies : List (Nat × Atom)) :
    Option (Atom × List (Nat × Atom) × Option Event) :=
  match bodies.lookup index with
  | some body => some (body, bodies, none)
  | none =>
    table.definitions[index]?.map fun definition =>
      let body := definition.build table.rules
      (body, (index, body) :: bodies, some (.bodyBuilt definition.name))

/-- The place and the body of the rule that a reference leads to, if it leads to one. -/
def resolve (table : RuleTable) (ref : RuleRef) : Matcher (Option (Nat × Atom)) := fun session =>
  let found := (table.resolve? ref).bind fun index =>
    (table.body? index session.bodies).map (index, ·)
  match found with
  | none => .matched none session
  | some (index, body, bodies, built) =>
    .matched (some (index, body))
      { session with bodies, trace := built.toList ++ session.trace }

/-- Fails at a reference that leads nowhere, and remembers the first of them. -/
def refuseUndefined (name : String) : Matcher Raw := do
  if (← session).undefined.isNone then
    modify fun s => { s with undefined := some name, trace := .aborted name :: s.trace }
  refuse (.undefinedRule name) (← position) []

/-- Applies the rule that a reference leads to, with at most `depth` rules inside each other. -/
def applyRule (table : RuleTable) : (depth : Nat) → RuleRef → Matcher Raw
  | 0, _ => stop .spent
  | depth + 1, ref => do
    match ← table.resolve ref with
    | none => refuseUndefined ref.name
    | some (index, atom) => do
      let body : Matcher Tree := do flatten false (← atom.matcher (table.applyRule depth))
      return .leaf (← memoized ⟨index, ref.name, body⟩)

/-- A bound on how deep rules are nested in a text of so many bytes. From one offset a rule is
entered afresh at most once while it waits to finish, and again in a round of growing at most once
for every cluster that is being grown there. -/
def depthBound (table : RuleTable) (bytes : Nat) : Nat :=
  let rules := table.definitions.length + 1
  (bytes + 1) * (rules * rules) + 1

end RuleTable

end Packrat
