import Packrat.Atom.Basic
import Packrat.Text.Uppercase

/-!
# Written expressions

Expressions are written in the usual form of parsing expression grammars: parts side by side,
branches divided by a slash, repetitions behind and lookaheads in front. An expression that binds
looser than its place asks for stands in parentheses.
-/

namespace Packrat

/-- How tightly an expression binds, and what a place asks for, from tight to loose. -/
inductive Binding where
  /-- Literals, characters, names and all that carries its own delimiters. -/
  | base
  /-- A lookahead and its operand. -/
  | lookahead
  /-- A repetition and its operand. -/
  | repetition
  /-- A sequence and its parts. -/
  | sequence
  /-- A choice and its branches. -/
  | choice
  /-- A place where anything may stand. -/
  | outer
  deriving DecidableEq, Repr

/-- The rank of a binding; looser bindings rank higher. -/
def Binding.rank : Binding → Nat
  | .base => 1
  | .lookahead => 2
  | .repetition => 3
  | .sequence => 4
  | .choice => 5
  | .outer => 6

namespace Atom

/-- How tightly an expression binds. -/
def binding : Atom → Binding
  | .lookahead .. => .lookahead
  | .repetition .. => .repetition
  | .sequence _ => .sequence
  | .choice _ => .choice
  | _ => .base

/-- Puts the text into parentheses if the expression binds looser than its place asks for. -/
def parenthesize (atom : Atom) (place : Binding) (text : String) : String :=
  if place.rank < atom.binding.rank then "(" ++ text ++ ")" else text

/-- What is written behind the operand of a repetition. -/
def repetitionMark (min : Nat) (max : Option Nat) (optional : Bool) : String :=
  if optional then "?"
  else
    match min, max with
    | 0, none => "*"
    | 1, none => "+"
    | 0, some 1 => "?"
    | min, some max => s!"\x7b{min}, {max}\x7d"
    | min, none => s!"\x7b{min}, \x7d"

mutual

/-- The expression as it is written at a place. -/
def renderAt (place : Binding) : Atom → String
  | .literal text => "'" ++ text ++ "'"
  | .char .any => "."
  | .char (.pattern text _) => text
  | .char (.predicate name _) => name
  | .sequence parts =>
    parenthesize (.sequence parts) place (" ".intercalate (renderAll .sequence parts))
  | .choice branches =>
    parenthesize (.choice branches) place (" / ".intercalate (renderAll .choice branches))
  | .repetition body min max optional =>
    parenthesize (.repetition body min max optional) place
      (renderAt .repetition body ++ repetitionMark min max optional)
  | .lookahead body positive =>
    parenthesize (.lookahead body positive) place
      ((if positive then "&" else "!") ++ renderAt .lookahead body)
  | .named body name => name ++ ":" ++ renderAt place body
  | .rule ref => upperText ref.name
  | .ignore body => renderAt place body
  | .map body _ => renderAt place body
  | .mark body => renderAt place body
  | .capture body name => "(" ++ name ++ " = " ++ renderAt .outer body ++ ")"
  | .scope body => renderAt place body
  | .dynamic _ => "dynamic \x7b ... \x7d"
  | .operators operand table _ =>
    "infix_expression(" ++ renderAt .outer operand ++ ", ["
      ++ ", ".intercalate (renderOperators table) ++ "])"
  | .label body _ => renderAt place body
  | .halt => "halt"

/-- Each expression as it is written at a place. -/
def renderAll (place : Binding) : List Atom → List String
  | [] => []
  | atom :: rest => renderAt place atom :: renderAll place rest

/-- Each operator of a table. -/
def renderOperators : List (Fixity × Atom) → List String
  | [] => []
  | (_, atom) :: rest => renderAt .outer atom :: renderOperators rest

end

/-- The expression as it is written. -/
def render (atom : Atom) : String := renderAt .outer atom

end Atom

end Packrat
