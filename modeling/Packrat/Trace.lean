import Packrat.Cause.Render
import Packrat.Memo

/-!
# Traces

A match leaves a trace of what happened in it. Each event belongs to a topic, has a message and
carries a few named values.
-/

namespace Packrat

/-- Something that happened during a match. -/
inductive Event where
  /-- The body of a rule was built. -/
  | bodyBuilt (rule : String)
  /-- A reference to a rule that does not exist was reached for the first time. -/
  | aborted (rule : String)
  /-- The match succeeded. -/
  | succeeded (stop : Nat)
  /-- The match failed. -/
  | failed (cause : Cause)
  /-- The counts at the end of the match. -/
  | statistics (entries : Nat) (counts : Statistics)
  /-- A rule came back to itself. -/
  | leftRecursion (rule : Nat)
  /-- A round of growing made the match of a rule longer. -/
  | seedGrew (rule : String) (start stop : Nat)
  /-- The entry of a rule at an offset was dropped. -/
  | entryDropped (rule start : Nat)
  /-- A repetition ended with enough rounds. -/
  | repetitionStopped (start stop count : Nat)
  /-- The value of a key was overwritten. -/
  | keyOverwritten (key : String)

/-- A value that an event carries. -/
inductive EventValue where
  /-- A number. -/
  | number (n : Nat)
  /-- A text. -/
  | text (s : String)

/-- What is said of a reference to a rule that does not exist. -/
def undefinedRuleMessage (name : String) : String :=
  s!"rule {quoted name} is referenced but not defined"

namespace Event

/-- The topic of an event. -/
def topic : Event → String
  | .bodyBuilt _ | .aborted _ | .succeeded _ | .failed _ => "parse"
  | .statistics .. | .leftRecursion _ | .seedGrew .. | .entryDropped .. => "memo"
  | .repetitionStopped .. => "repetition"
  | .keyOverwritten _ => "flatten"

/-- The message of an event. -/
def message : Event → String
  | .bodyBuilt _ => "building rule body"
  | .aborted _ => "aborting parse"
  | .succeeded _ => "parse succeeded"
  | .failed _ => "parse failed"
  | .statistics .. => "memo statistics"
  | .leftRecursion _ => "left recursion detected"
  | .seedGrew .. => "seed grew"
  | .entryDropped .. => "dropped stale entry"
  | .repetitionStopped .. => "repetition stopped"
  | .keyOverwritten _ => "duplicate subtrees while merging result, later value wins"

/-- The values of an event with their names. -/
def fields : Event → List (String × EventValue)
  | .bodyBuilt rule => [("rule", .text rule)]
  | .aborted rule => [("error", .text (undefinedRuleMessage rule))]
  | .succeeded stop => [("end", .number stop)]
  | .failed cause => [("cause", .text cause.render)]
  | .statistics entries counts =>
    [("entries", .number entries), ("hits", .number counts.hits), ("misses", .number counts.misses),
      ("left_recursions", .number counts.leftRecursions),
      ("growth_rounds", .number counts.growthRounds)]
  | .leftRecursion rule => [("rule", .number rule)]
  | .seedGrew rule start stop =>
    [("rule", .text rule), ("start", .number start), ("end", .number stop)]
  | .entryDropped rule start => [("rule", .number rule), ("start", .number start)]
  | .repetitionStopped start stop count =>
    [("start", .number start), ("end", .number stop), ("count", .number count)]
  | .keyOverwritten key => [("key", .text key)]

/-- Whether the event reports the counts of a match. -/
def isStatistics : Event → Bool
  | .statistics .. => true
  | _ => false

/-- Puts an event in front of a trace. Entries dropped at the same offset one right after the other
are listed by rule, since nothing depends on their order. -/
def insertOrdered (event : Event) : List Event → List Event
  | [] => [event]
  | next :: rest =>
    match event, next with
    | .entryDropped rule start, .entryDropped rule' start' =>
      if start = start' ∧ rule' < rule then next :: insertOrdered event rest
      else event :: next :: rest
    | _, _ => event :: next :: rest

/-- The trace with every run of dropped entries at one offset listed by rule. -/
def ordered (trace : List Event) : List Event := trace.foldr insertOrdered []

end Event

end Packrat
