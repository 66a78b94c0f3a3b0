import Packrat.Proofs.Parts
import Packrat.Tree.Flatten
import Packrat.Tree.Transform

/-!
# Reading without a memo

The meaning of expressions, apart from all that a match keeps track of. A reading says what an
expression comes to from an offset of a text: a value and the offset behind it, or a cause. Choices
are ordered, repetition is greedy and ends with an empty round, lookahead consumes nothing, and a
reference is read by reading the body of its rule and flattening the value. Nothing is remembered, so
a rule that comes back to itself without moving has no reading.

To keep readings total, they have no answer where rules are nested or loops go on for longer than a
bound. What an expression means is what it comes to under any bound that is large enough.

A rule can also be read as a loop: first one of its seeds, and then one step after another, each
taking in what was read before. Labels and captures play no part in a reading.
-/

namespace Packrat

/-- What reading a text from an offset comes to. -/
inductive Verdict (α : Type) where
  /-- The text does not match. -/
  | failed (cause : Cause)
  /-- The text matches up to the offset. -/
  | matched (value : α) (stop : Nat)

/-- What reading comes to from each offset, or nothing where it takes longer than allowed. -/
abbrev Reading (α : Type) := Nat → Option (Verdict α)

namespace Reading

variable {α β : Type}

/-- Goes on after a reading, from the offset behind the match or with the cause of the failure. -/
def resume (outcome : Option (Verdict α)) (onMatch : α → Reading β)
    (onFailure : Cause → Option (Verdict β)) : Option (Verdict β) :=
  match outcome with
  | none => none
  | some (.failed cause) => onFailure cause
  | some (.matched value stop) => onMatch value stop

/-- Fails with a new cause. -/
def refuse (message : Message) (offset : Nat) (children : List Cause) : Option (Verdict α) :=
  some (.failed { message, offset, children })

/-- Goes on behind a match; a failure is handed on. -/
def andThen (first : Reading α) (next : α → Reading β) : Reading β := fun start =>
  resume (first start) next (fun cause => some (.failed cause))

/-- The reading with its value changed. -/
def map (f : α → β) (body : Reading α) : Reading β :=
  body.andThen fun value stop => some (.matched (f value) stop)

/-- The flat value of a raw one; `named` says that it is about to be stored under a name. -/
def flat (named : Bool) (body : Reading Raw) : Reading Tree :=
  body.map fun raw => (raw.flatten named).tree

/-- Exactly the characters of the string. -/
def literal (text : Text) (word : String) : Reading Raw := fun start =>
  let source : Source := { text, pos := start }
  if source.remaining < word.utf8ByteSize then refuse .prematureEnd start []
  else if source.startsWith word then
    some (.matched (.leaf (.str (source.slice start word.utf8ByteSize)))
      (start + word.utf8ByteSize))
  else refuse (.expected word (source.peekChars word.length)) start []

/-- One character of the class. -/
def character (text : Text) (test : CharClass) : Reading Raw := fun start =>
  let source : Source := { text, pos := start }
  match source.nextChar? with
  | none => refuse .prematureEnd start []
  | some c =>
    if test.accepts c then
      some (.matched (.leaf (.str (source.slice start c.utf8Size))) (start + c.utf8Size))
    else refuse (.noMatch (.char test)) start []

/-- Every part in order. -/
def inOrder (whole : Atom) : List (Reading Raw) → Reading (List Raw)
  | [], start => some (.matched [] start)
  | part :: rest, start =>
    resume (part start)
      (fun value => (inOrder whole rest).map (value :: ·))
      (fun cause => refuse (.sequence whole) start [cause])

/-- The first branch that matches; `causes` are those of the branches that failed, the last one
first. -/
def firstOf (whole : Atom) : List (Reading α) → List Cause → Reading α
  | [], causes, start => refuse (.alternatives whole) start causes.reverse
  | branch :: rest, causes, start =>
    resume (branch start)
      (fun value stop => some (.matched value stop))
      (fun cause => firstOf whole rest (cause :: causes) start)

/-- Rounds of the body until it fails, matches nothing or has matched `max` times, and the cause of
the failure that ended them. -/
def rounds (body : Reading Raw) (max : Option Nat) :
    (bound count : Nat) → Reading (List Raw × Option Cause)
  | 0, _, _ => none
  | bound + 1, count, start =>
    if max.any (· ≤ count) then some (.matched ([], none) start)
    else
      resume (body start)
        (fun value stop =>
          if stop = start then some (.matched ([value], none) stop)
          else (rounds body max bound (count + 1)).map (fun (values, ended) =>
            (value :: values, ended)) stop)
        (fun cause => some (.matched ([], some cause) start))

/-- The body at least `min` and at most `max` times, as often as possible. -/
def repetition (part : Atom) (body : Reading Raw) (min : Nat) (max : Option Nat) (optional : Bool)
    (bound : Nat) : Reading Raw := fun start =>
  (rounds body max bound 0).andThen
    (fun (values, ended) stop =>
      if values.length < min then refuse (.atLeast min part) start ended.toList
      else some (.matched (if optional then .optional values.getLast? else .repetition values) stop))
    start

/-- Nothing, where the body matches or does not, as `positive` says. -/
def lookahead (part : Atom) (body : Reading Raw) (positive : Bool) : Reading Raw := fun start =>
  resume (body start)
    (fun _ _ =>
      if positive then some (.matched .unit start) else refuse (.lookahead false part) start [])
    (fun cause =>
      if positive then refuse (.lookahead true part) start [cause]
      else some (.matched .unit start))

/-- The value of the body, with the offset left where it was. -/
def marked (body : Reading Raw) : Reading Raw := fun start =>
  body.andThen (fun value _ => some (.matched value start)) start

/-- One operand. -/
def operand (part : Atom) (body : Reading Raw) : Reading Tree := fun start =>
  resume (body start)
    (fun raw stop => some (.matched (raw.flatten true).tree stop))
    (fun cause => refuse (.operandExpected part) start [cause])

/-- The first operator of the table that matches, if one does. -/
def operator : List (Fixity × Reading Raw) → Reading (Option (Tree × Fixity))
  | [], start => some (.matched none start)
  | (fixity, body) :: rest, start =>
    resume (body start)
      (fun raw stop => some (.matched (some ((raw.flatten true).tree, fixity)) stop))
      (fun _ => operator rest start)

/-- Goes on behind the operand `left` with operators of precedence `floor` or tighter. -/
def climbFrom (element : Reading Tree) (next : Reading (Option (Tree × Fixity)))
    (combine : Tree → Tree → Tree → Tree) :
    (bound : Nat) → (floor : UInt32) → (left : Tree) → Reading Tree
  | 0, _, _, _ => none
  | bound + 1, floor, left, start =>
    next.andThen (fun
      | none => fun stop => some (.matched left stop)
      | some (symbol, fixity) =>
        if fixity.precedence < floor then fun _ => some (.matched left start)
        else element.andThen fun first =>
          (climbFrom element next combine bound fixity.rightFloor first).andThen fun right =>
            climbFrom element next combine bound floor (combine left symbol right)) start

/-- Operands joined by the operators of a table. -/
def operators (element : Reading Tree) (next : Reading (Option (Tree × Fixity)))
    (combine : Tree → Tree → Tree → Tree) (bound : Nat) : Reading Raw :=
  (element.andThen (climbFrom element next combine bound 0)).map .leaf

/-- All that is left of the text. -/
def halt (text : Text) : Reading Raw := fun start =>
  some (.matched .unit (start + (text.size - start)))

end Reading

mutual

/-- How an expression is read, given how references are read. Where the choice of an expression
depends on captures there is no reading. -/
def Atom.reading (text : Text) (rule : RuleRef → Reading Tree) (bound : Nat) : Atom → Reading Raw
  | .literal word => .literal text word
  | .char test => .character text test
  | .sequence parts => (Reading.inOrder (.sequence parts) (Atom.readings text rule bound parts)).map
      .sequence
  | .choice branches => Reading.firstOf (.choice branches) (Atom.readings text rule bound branches) []
  | .repetition body min max optional =>
    .repetition body (body.reading text rule bound) min max optional bound
  | .lookahead body positive => .lookahead body (body.reading text rule bound) positive
  | .named body name =>
    ((body.reading text rule bound).flat true).map fun value => .leaf (.map [(name, value)])
  | .rule ref => (rule ref).map .leaf
  | .ignore body => (body.reading text rule bound).map fun _ => .unit
  | .map body transform =>
    ((body.reading text rule bound).flat false).map fun value => .leaf (transform value)
  | .mark body => .marked (body.reading text rule bound)
  | .capture body _ => ((body.reading text rule bound).flat false).map .leaf
  | .scope body => body.reading text rule bound
  | .dynamic _ => fun _ => none
  | .operators operand table combine =>
    .operators (.operand operand (operand.reading text rule bound))
      (.operator (Atom.operatorReadings text rule bound table)) (combine.getD Tree.operation) bound
  | .label body _ => body.reading text rule bound
  | .halt => .halt text

/-- How each of the expressions is read. -/
def Atom.readings (text : Text) (rule : RuleRef → Reading Tree) (bound : Nat) :
    List Atom → List (Reading Raw)
  | [] => []
  | atom :: rest => atom.reading text rule bound :: Atom.readings text rule bound rest

/-- How each operator of a table is read. -/
def Atom.operatorReadings (text : Text) (rule : RuleRef → Reading Tree) (bound : Nat) :
    List (Fixity × Atom) → List (Fixity × Reading Raw)
  | [] => []
  | (fixity, atom) :: rest =>
    (fixity, atom.reading text rule bound) :: Atom.operatorReadings text rule bound rest

end

/-- A rule that is read as a loop. -/
structure Loop where
  /-- The place of the rule in its table. -/
  rule : Nat
  /-- What can follow a match of the rule, to make a longer one: each step is a sequence. -/
  steps : List (List Atom)
  /-- What a match of the rule can start with. -/
  seeds : List Atom

/-- Takes steps for as long as one of them matches and leads further. Each makes one value of what
was read before and what it read itself. -/
def Reading.iterate (step : Reading (List Raw)) : (bound : Nat) → (value : Tree) → Reading Tree
  | 0, _, _ => none
  | bound + 1, value, start =>
    resume (step start)
      (fun values stop =>
        if start < stop then
          iterate step bound (Raw.flatten false (.sequence (.leaf value :: values))).tree stop
        else some (.matched value start))
      (fun _ => some (.matched value start))

/-- Reads the first step of the loop that matches. -/
def Loop.step (loop : Loop) (text : Text) (rule : RuleRef → Reading Tree) (bound : Nat) :
    Reading (List Raw) :=
  Reading.firstOf (.choice (loop.steps.map .sequence)) (loop.steps.map fun parts =>
    Reading.inOrder (.sequence parts) (Atom.readings text rule bound parts)) []

/-- Reads the rule as a loop: the first seed that matches, and then steps. -/
def Loop.reading (loop : Loop) (text : Text) (rule : RuleRef → Reading Tree) (bound : Nat) :
    Reading Tree :=
  (((Atom.choice loop.seeds).reading text rule bound).flat false).andThen
    (Reading.iterate (loop.step text rule bound) bound)

namespace RuleTable

/-- How a reference is read, given how the rules are read. -/
def readRef (table : RuleTable) (read : Nat → Reading Tree) (ref : RuleRef) : Reading Tree :=
  match table.resolve? ref with
  | none => fun start => Reading.refuse (.undefinedRule ref.name) start []
  | some index => read index

/-- How the rule at a place of the table is read, with at most `depth` rules inside each other. The
rule of the loop, if one is given, is read as a loop, and all other rules by their bodies. -/
def readRule (table : RuleTable) (text : Text) (loop : Option Loop) :
    (depth : Nat) → (index : Nat) → Reading Tree
  | 0, _ => fun _ => none
  | depth + 1, index =>
    let rule := table.readRef (table.readRule text loop depth)
    match loop.filter (·.rule = index) with
    | some loop => loop.reading text rule depth
    | none =>
      match table.bodyAt? index with
      | some body => (body.reading text rule depth).flat false
      | none => fun _ => none

/-- What a reference comes to by plain recursion: under some bound it is read so. -/
def ReadsPlainly (table : RuleTable) (text : Text) (ref : RuleRef) (start : Nat)
    (verdict : Verdict Tree) : Prop :=
  ∃ depth, table.readRef (table.readRule text none depth) ref start = some verdict

/-- What a reference comes to if one rule is read as a loop: under some bound it is read so. -/
def ReadsLooping (table : RuleTable) (text : Text) (loop : Loop) (ref : RuleRef) (start : Nat)
    (verdict : Verdict Tree) : Prop :=
  ∃ depth, table.readRef (table.readRule text (some loop) depth) ref start = some verdict

end RuleTable

end Packrat
