import Packrat.Session

/-!
# Combinators

The matchers behind the kinds of expressions, each given the matchers of its parts. An expression
that a message is about is passed along, since the matchers themselves cannot be shown.

`guarded` owns the contract of every expression: after a failure the cursor is back where the
expression started, after a match it stands right behind it and the reporter has been told.
-/

namespace Packrat.Matcher

/-- Announces a match, and puts the cursor back after a failure. -/
def guarded (step : Matcher Raw) : Matcher Raw := do
  let start ← position
  match ← attempt step with
  | .ok raw => do
    tell (.succeeded (← position))
    return raw
  | .error cause => do
    moveTo start
    fail cause

/-- Exactly the text. -/
def literal (text : String) : Matcher Raw := do
  let source ← source
  if source.remaining < text.utf8ByteSize then refuse .prematureEnd source.pos []
  else if source.startsWith text then return .leaf (.str (← consume text.utf8ByteSize))
  else refuse (.expected text (source.peekChars text.length)) source.pos []

/-- One character that passes the test. -/
def character (whole : Atom) (test : Char → Bool) : Matcher Raw := do
  let source ← source
  match source.nextChar? with
  | none => refuse .prematureEnd source.pos []
  | some c =>
    if test c then return .leaf (.str (← consume c.utf8Size))
    else refuse (.noMatch whole) source.pos []

/-- Every part in order. A failure is anchored where the failing part started. -/
def inOrder (whole : Atom) : List (Matcher Raw) → Matcher (List Raw)
  | [] => return []
  | part :: rest => do
    match ← attempt part with
    | .error cause => do refuse (.sequence whole) (← position) [cause]
    | .ok value => return value :: (← inOrder whole rest)

/-- The first branch that matches; `causes` are those of the branches that failed, the last one
first. -/
def firstOf (whole : Atom) (start : Nat) : List (Matcher Raw) → List Cause → Matcher Raw
  | [], causes => do
    tell (.choiceFinished false)
    refuse (.alternatives whole) start causes.reverse
  | branch :: rest, causes => do
    match ← attempt branch with
    | .ok value => do
      tell (.choiceFinished true)
      return value
    | .error cause => firstOf whole start rest (cause :: causes)

/-- The first branch that matches. -/
def choice (whole : Atom) (branches : List (Matcher Raw)) : Matcher Raw := do
  let start ← position
  tell .choiceStarted
  firstOf whole start branches []

/-- Rounds of the body until it fails, matches nothing or has matched `max` times, and the cause of
the failure that ended them. `count` rounds are over already; `bound` more may be tried. -/
def roundsFrom (body : Matcher Raw) (max : Option Nat) :
    (bound count : Nat) → Matcher (List Raw × Option Cause)
  | 0, _ => stop .spent
  | bound + 1, count =>
    if max.any (· ≤ count) then return ([], none)
    else do
      let before ← position
      match ← attempt body with
      | .error cause => return ([], some cause)
      | .ok value => do
        if (← position) = before then return ([value], none)
        else
          let (values, ended) ← roundsFrom body max bound (count + 1)
          return (value :: values, ended)

/-- The body at least `min` and at most `max` times. Every round but the last consumes input, so the
bytes left bound their number. -/
def repetition (part : Atom) (body : Matcher Raw) (min : Nat) (max : Option Nat) (optional : Bool) :
    Matcher Raw := do
  let start ← position
  let (values, ended) ← roundsFrom body max ((← source).remaining + 1) 0
  if values.length < min then refuse (.atLeast min part) start ended.toList
  else
    emit (.repetitionStopped start (← position) values.length)
    return if optional then .optional values.getLast? else .repetition values

/-- Nothing, where the body matches or does not, as `positive` says. -/
def lookahead (part : Atom) (body : Matcher Raw) (positive : Bool) : Matcher Raw := do
  let start ← position
  let outcome ← attempt body
  moveTo start
  match outcome, positive with
  | .ok _, true => return .unit
  | .error _, false => return .unit
  | .ok _, false => refuse (.lookahead false part) start []
  | .error cause, true => refuse (.lookahead true part) start [cause]

/-- The body, its value stored under a name. -/
def named (body : Matcher Raw) (name : String) : Matcher Raw := do
  let value ← flatten true (← body)
  return .leaf (.map [(name, value)])

/-- The body, its value transformed. -/
def mapped (body : Matcher Raw) (transform : Tree → Tree) : Matcher Raw := do
  let value ← flatten false (← body)
  return .leaf (transform value)

/-- The body, with the cursor put back after a match. -/
def marked (body : Matcher Raw) : Matcher Raw := do
  let start ← position
  let raw ← body
  moveTo start
  return raw

/-- The body, its value captured under a name. -/
def captured (body : Matcher Raw) (name : String) : Matcher Raw := do
  let value ← flatten false (← body)
  modify fun s => { s with captures := s.captures.insert name value }
  return .leaf value

/-- The body in a scope of its own. -/
def inScope (body : Matcher Raw) : Matcher Raw := do
  modify fun s => { s with captures := s.captures.openScope }
  let outcome ← attempt body
  modify fun s => { s with captures := s.captures.closeScope }
  ofResult outcome

/-- The body with a label around it. -/
def labelled (body : Matcher Raw) (text : String) : Matcher Raw := do
  modify fun s => { s with labels := text :: s.labels }
  let outcome ← attempt body
  modify fun s => { s with labels := s.labels.tail }
  ofResult outcome

/-- All that is left of the input. -/
def halt : Matcher Raw := do
  let _ ← consume (← source).remaining
  return .unit

end Packrat.Matcher
