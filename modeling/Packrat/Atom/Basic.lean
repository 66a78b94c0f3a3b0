import Packrat.Captures
import Packrat.Pattern.Reader
import Packrat.Source.Basic

/-!
# Parsing expressions

An atom is a parsing expression: a literal, a single character, or a combination of smaller
expressions. This module holds the type and the ways to build larger expressions from smaller ones.
-/

namespace Packrat

/-- A test for a single character. -/
inductive CharClass where
  /-- Every character. -/
  | any
  /-- The characters that a pattern accepts, with the text the pattern was read from. -/
  | pattern (text : String) (pattern : Pattern)
  /-- The characters that pass a test, with the name under which it is reported. -/
  | predicate (name : String) (test : Char → Bool)

/-- Whether the class has the character. -/
def CharClass.accepts : CharClass → Char → Bool
  | .any, _ => true
  | .pattern _ p, c => p.accepts c
  | .predicate _ test, c => test c

/-- A reference to a rule of a rule table. -/
structure RuleRef where
  /-- The place of the rule in the table, if the table has a rule of that name. -/
  index : Option Nat
  /-- The key of the table that made the reference. -/
  table : Nat
  /-- The name of the rule. -/
  name : String
  deriving DecidableEq, Repr

/-- On which side operators of equal precedence group. -/
inductive Side where
  /-- To the left. -/
  | left
  /-- To the right. -/
  | right
  deriving DecidableEq, Repr

/-- How an operator binds. -/
structure Fixity where
  /-- Higher precedences bind tighter; 0 is the loosest. -/
  precedence : UInt32
  /-- How operators of the same precedence group. -/
  side : Side
  deriving DecidableEq, Repr

/-- The lowest precedence that an operator in the right operand may have. The addition is one of 32
bits and is not checked: to the right of an operator of the highest precedence that groups to the left
it wraps around, and every operator may stand there. A program that is built to check its additions is
ended there instead; about every other operator both builds agree. -/
def Fixity.rightFloor (f : Fixity) : UInt32 :=
  match f.side with
  | .left => f.precedence + 1
  | .right => f.precedence

/-- A parsing expression. -/
inductive Atom where
  /-- Exactly this text. -/
  | literal (text : String)
  /-- One character of the class. -/
  | char (test : CharClass)
  /-- Every expression in order. -/
  | sequence (parts : List Atom)
  /-- The first expression that matches. -/
  | choice (branches : List Atom)
  /-- The expression at least `min` and at most `max` times, as often as possible. A repetition that
  is `optional` stands for at most one round and yields the value of that round. -/
  | repetition (body : Atom) (min : Nat) (max : Option Nat) (optional : Bool)
  /-- Nothing, where the expression matches, or where it does not. -/
  | lookahead (body : Atom) (positive : Bool)
  /-- The expression, its value stored under a name. -/
  | named (body : Atom) (name : String)
  /-- A rule of the grammar. -/
  | rule (ref : RuleRef)
  /-- The expression, its value dropped. -/
  | ignore (body : Atom)
  /-- The expression, its value transformed. -/
  | map (body : Atom) (transform : Tree → Tree)
  /-- The value of the expression, with the cursor left where it was. -/
  | mark (body : Atom)
  /-- The expression, its value captured under a name. -/
  | capture (body : Atom) (name : String)
  /-- The expression in a scope of its own. -/
  | scope (body : Atom)
  /-- The expression chosen when the match gets here. -/
  | dynamic (pick : Source → Captures → Atom)
  /-- Operands joined by binary operators; without `combine` an operation becomes a map. -/
  | operators (operand : Atom) (table : List (Fixity × Atom))
      (combine : Option (Tree → Tree → Tree → Tree))
  /-- The expression, failures in it tagged with a label. -/
  | label (body : Atom) (text : String)
  /-- All that is left of the input. -/
  | halt
  deriving Inhabited

namespace Atom

/-- One character that a pattern accepts, if the text is a pattern. -/
def ofPattern (text : String) : Except Pattern.Fault Atom :=
  (Pattern.ofText text).map fun pattern => .char (.pattern text pattern)

/-- One character that passes a test. -/
def satisfy (name : String) (test : Char → Bool) : Atom := .char (.predicate name test)

/-- Any one character. -/
def any : Atom := .char .any

/-- The parts of a sequence; any other expression is its own only part. -/
def sequenceParts : Atom → List Atom
  | .sequence parts => parts
  | atom => [atom]

/-- The branches of a choice; any other expression is its own only branch. -/
def choiceBranches : Atom → List Atom
  | .choice branches => branches
  | atom => [atom]

/-- One expression after the other; sequences on either side become part of the new one. -/
def andThen (a b : Atom) : Atom := .sequence (a.sequenceParts ++ b.sequenceParts)

/-- One expression or else the other; choices on either side become part of the new one. -/
def orElse (a b : Atom) : Atom := .choice (a.choiceBranches ++ b.choiceBranches)

/-- Between `min` and `max` rounds. -/
def rounds (atom : Atom) (min : Nat) (max : Option Nat) : Atom := .repetition atom min max false

/-- Any number of rounds. -/
def many (atom : Atom) : Atom := atom.rounds 0 none

/-- At least one round. -/
def many1 (atom : Atom) : Atom := atom.rounds 1 none

/-- The expression or nothing. -/
def maybe (atom : Atom) : Atom := .repetition atom 0 (some 1) true

/-- Nothing, where the expression matches. -/
def present (atom : Atom) : Atom := .lookahead atom true

/-- Nothing, where the expression does not match. -/
def absent (atom : Atom) : Atom := .lookahead atom false

end Atom

end Packrat
