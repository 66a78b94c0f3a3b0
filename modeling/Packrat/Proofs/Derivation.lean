import Packrat.Proofs.Boundaries
import Packrat.Proofs.CallPath

/-!
# Matches are derivations

What an expression can match, without regard to order or greed, is given by derivations: a choice
derives what any branch derives, a repetition any number of rounds within its bounds, and a lookahead
nothing at all, whatever follows. Every match is backed by a derivation, through all rounds in which
left-recursive rules are grown: an answer of the memo is derived when it is made, and a rule that comes
back to itself only ever gets its first seed, which is a failure.
-/

namespace Packrat

open Matcher

/-- An expression that is neither chosen during the match nor made of operators. -/
def Atom.isPlain : Atom → Bool
  | .dynamic _ => false
  | .operators _ _ _ => false
  | _ => true

mutual

/-- The expression can match the text between two offsets with the value. -/
inductive RuleTable.Derives (table : RuleTable) (text : Text) : Atom → Nat → Nat → Raw → Prop where
  /-- The characters of the string, where they stand in the text. -/
  | literal {word : String} {start : Nat}
    (here : Source.startsWith { text, pos := start } word = true) :
    Derives table text (.literal word) start (start + word.utf8ByteSize)
      (.leaf (.str (Source.slice { text } start word.utf8ByteSize)))
  /-- The next character of the text, if the class has it. -/
  | char {test : CharClass} {start : Nat} {c : Char}
    (here : Source.nextChar? { text, pos := start } = some c) (accepted : test.accepts c = true) :
    Derives table text (.char test) start (start + c.utf8Size)
      (.leaf (.str (Source.slice { text } start c.utf8Size)))
  /-- All parts one after the other. -/
  | sequence {parts : List Atom} {start stop : Nat} {values : List Raw}
    (all : DerivesAll table text parts start stop values) :
    Derives table text (.sequence parts) start stop (.sequence values)
  /-- Any of the branches. -/
  | choice {branches : List Atom} {branch : Atom} {start stop : Nat} {value : Raw}
    (mem : branch ∈ branches) (one : Derives table text branch start stop value) :
    Derives table text (.choice branches) start stop value
  /-- As many rounds one after the other as the bounds allow. -/
  | repetition {body : Atom} {min : Nat} {max : Option Nat} {optional : Bool} {start stop : Nat}
    {values : List Raw} (enough : min ≤ values.length) (few : ∀ m, max = some m → values.length ≤ m)
    (all : DerivesAll table text (List.replicate values.length body) start stop values) :
    Derives table text (.repetition body min max optional) start stop
      (if optional then .optional values.getLast? else .repetition values)
  /-- Nothing, wherever it is. -/
  | lookahead (body : Atom) (positive : Bool) (start : Nat) :
    Derives table text (.lookahead body positive) start start .unit
  /-- The flat value of the body under a name. -/
  | named {body : Atom} {start stop : Nat} {value : Raw} (name : String)
    (inner : Derives table text body start stop value) :
    Derives table text (.named body name) start stop
      (.leaf (.map [(name, (value.flatten true).tree)]))
  /-- The flat value of the body of the rule. -/
  | rule {ref : RuleRef} {index : Nat} {body : Atom} {start stop : Nat} {value : Raw}
    (leads : table.resolve? ref = some index) (defined : table.bodyAt? index = some body)
    (inner : Derives table text body start stop value) :
    Derives table text (.rule ref) start stop (.leaf (value.flatten false).tree)
  /-- The body without its value. -/
  | ignore {body : Atom} {start stop : Nat} {value : Raw}
    (inner : Derives table text body start stop value) :
    Derives table text (.ignore body) start stop .unit
  /-- The flat value of the body, transformed. -/
  | map {body : Atom} {start stop : Nat} {value : Raw} (transform : Tree → Tree)
    (inner : Derives table text body start stop value) :
    Derives table text (.map body transform) start stop
      (.leaf (transform (value.flatten false).tree))
  /-- The value of the body, read ahead. -/
  | mark {body : Atom} {start stop : Nat} {value : Raw}
    (inner : Derives table text body start stop value) :
    Derives table text (.mark body) start start value
  /-- The flat value of the body. -/
  | capture {body : Atom} {start stop : Nat} {value : Raw} (name : String)
    (inner : Derives table text body start stop value) :
    Derives table text (.capture body name) start stop (.leaf (value.flatten false).tree)
  /-- The body. -/
  | scope {body : Atom} {start stop : Nat} {value : Raw}
    (inner : Derives table text body start stop value) :
    Derives table text (.scope body) start stop value
  /-- The body. -/
  | label {body : Atom} {start stop : Nat} {value : Raw} (name : String)
    (inner : Derives table text body start stop value) :
    Derives table text (.label body name) start stop value
  /-- All that is left of the text. -/
  | halt (start : Nat) : Derives table text .halt start text.size .unit

/-- The expressions can match the text between two offsets one after the other. -/
inductive RuleTable.DerivesAll (table : RuleTable) (text : Text) :
    List Atom → Nat → Nat → List Raw → Prop where
  /-- No expression is left. -/
  | nil (start : Nat) : DerivesAll table text [] start start []
  /-- One expression and then the others. -/
  | cons {atom : Atom} {rest : List Atom} {start middle stop : Nat} {value : Raw} {values : List Raw}
    (first : RuleTable.Derives table text atom start middle value)
    (others : DerivesAll table text rest middle stop values) :
    DerivesAll table text (atom :: rest) start stop (value :: values)

end

/-- The rule at a place of the table can match the text between two offsets with the flat value. -/
def RuleTable.DerivesRule (table : RuleTable) (text : Text) (index start stop : Nat) (tree : Tree) :
    Prop :=
  ∃ body value, table.bodyAt? index = some body ∧ table.Derives text body start stop value ∧
    tree = (value.flatten false).tree

end Packrat
