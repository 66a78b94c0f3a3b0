import Packrat.Atom.Render
import Packrat.Trace

/-!
# Grammars

A grammar is a table of named rules, which may refer to each other in any order, and the rule that a
match starts with. The body of a rule is built when it is first needed, from a builder that can make
references to the rules of the table. References carry the key of the table they were made by, and
lead nowhere in any other table.
-/

namespace Packrat

/-- What the builder of a rule can refer to. -/
structure Rules where
  /-- The key of the table. -/
  key : Nat
  /-- The names of its rules, in order. -/
  names : List String

/-- A reference to a rule by its name, whether there is such a rule or not. -/
def Rules.ref (rules : Rules) (name : String) : RuleRef :=
  ⟨rules.names.idxOf? name, rules.key, name⟩

/-- A reference to a rule as an expression. -/
def Rules.rule (rules : Rules) (name : String) : Atom := .rule (rules.ref name)

/-- A named rule. -/
structure Definition where
  /-- The name of the rule. -/
  name : String
  /-- Builds the body of the rule. -/
  build : Rules → Atom

/-- The rules of one grammar. -/
structure RuleTable where
  /-- Tells the table from all others. -/
  key : Nat
  /-- The rules in order. -/
  definitions : List Definition

namespace RuleTable

/-- The table that expressions outside of any grammar are matched with. -/
def empty : RuleTable := ⟨0, []⟩

/-- The names of the rules, in order. -/
def names (table : RuleTable) : List String := table.definitions.map (·.name)

/-- What the builders of the rules can refer to. -/
def rules (table : RuleTable) : Rules := ⟨table.key, table.names⟩

/-- The place of the rule that a reference leads to, if it leads to one. -/
def resolve? (table : RuleTable) (ref : RuleRef) : Option Nat :=
  if ref.table = table.key then ref.index.filter (· < table.definitions.length) else none

end RuleTable

/-- Why a grammar cannot be used. -/
inductive GrammarError where
  /-- A reference leads nowhere. -/
  | undefinedRule (name : String)
  /-- The rule to start with is not defined. -/
  | undefinedRoot (name : String)
  /-- There is no rule to start with. -/
  | missingRoot
  /-- A rule is defined twice. -/
  | duplicateRule (name : String)
  deriving DecidableEq, Repr

/-- The error in words. -/
def GrammarError.message : GrammarError → String
  | .undefinedRule name => undefinedRuleMessage name
  | .undefinedRoot name => s!"root rule {quoted name} is not defined"
  | .missingRoot => "grammar has no root rule"
  | .duplicateRule name => s!"rule {quoted name} is defined more than once"

/-- Rules and the one to start with. -/
structure Grammar where
  /-- The rules. -/
  table : RuleTable
  /-- The place of the rule to start with. -/
  root : Nat

namespace Grammar

/-- The first name that repeats an earlier one. -/
def firstRepeat? : (seen : List String) → List String → Option String
  | _, [] => none
  | seen, name :: rest => if seen.contains name then some name else firstRepeat? (name :: seen) rest

/-- A grammar of the given rules, if a root is given, no name is defined twice and the root is
defined. -/
def build (key : Nat) (definitions : List Definition) (root : Option String) :
    Except GrammarError Grammar :=
  match root with
  | none => .error .missingRoot
  | some root =>
    let table : RuleTable := ⟨key, definitions⟩
    match firstRepeat? [] table.names with
    | some name => .error (.duplicateRule name)
    | none =>
      match table.names.idxOf? root with
      | none => .error (.undefinedRoot root)
      | some index => .ok ⟨table, index⟩

/-- The name of the rule to start with. -/
def rootName (grammar : Grammar) : String := (grammar.table.names[grammar.root]?).getD ""

/-- A reference to the rule to start with. -/
def rootAtom (grammar : Grammar) : Atom := grammar.table.rules.rule grammar.rootName

/-- A reference to a rule, if it is defined. -/
def rule? (grammar : Grammar) (name : String) : Option Atom :=
  if grammar.table.names.contains name then some (grammar.table.rules.rule name) else none

end Grammar

end Packrat
