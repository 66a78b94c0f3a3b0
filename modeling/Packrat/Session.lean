import Packrat.Reporter
import Packrat.Trace
import Packrat.Tree.Flatten

/-!
# Sessions and matchers

A session is everything that one match owns: the source with its cursor, the bodies of rules built
so far, the memo, the captures, the labels around the current expression, the reporter, and what
there is to tell about the match afterwards. A matcher is a step of a match: it matches with a value
or fails with a cause, and leaves a session behind either way. A step can also be broken off, when a
bound on its length is spent or when the cursor would leave the text; then there is no session left
to go on with, and whatever the step was part of is broken off too.
-/

namespace Packrat

/-- Why a match was broken off. -/
inductive Stop where
  /-- A loop or a nesting of rules went on for longer than its bound. -/
  | spent
  /-- The cursor was to be moved out of the text or into a character. -/
  | misplaced
  deriving DecidableEq, Repr

/-- What one match owns. -/
structure Session where
  /-- The input and the cursor. -/
  source : Source
  /-- The bodies built so far, each with the place of its rule. -/
  bodies : List (Nat × Atom) := []
  /-- What is remembered about rules. -/
  memo : Memo := {}
  /-- The captured values. -/
  captures : Captures := {}
  /-- The labels around the current expression, the innermost first. -/
  labels : List String := []
  /-- Who is told about failures and successes. -/
  reporter : Reporter
  /-- The first reference reached that leads nowhere. -/
  undefined : Option String := none
  /-- Whether overwritten keys are noted. -/
  warn : Bool := true
  /-- The overwritten keys, the latest first. -/
  overwritten : List String := []
  /-- What happened so far, the latest first. -/
  trace : List Event := []

/-- The outcome of a step. -/
inductive Reply (α : Type) where
  /-- The step was broken off. -/
  | stopped (reason : Stop)
  /-- The step failed. -/
  | failed (cause : Cause) (session : Session)
  /-- The step matched. -/
  | matched (value : α) (session : Session)

/-- A step of a match. -/
def Matcher (α : Type) : Type := Session → Reply α

namespace Matcher

variable {α β : Type}

/-- Matches with a value and changes nothing. -/
protected def pure (value : α) : Matcher α := fun session => .matched value session

/-- Goes on with the value of a step that matched. -/
protected def bind (step : Matcher α) (next : α → Matcher β) : Matcher β := fun session =>
  match step session with
  | .stopped reason => .stopped reason
  | .failed cause session => .failed cause session
  | .matched value session => next value session

instance : Monad Matcher where
  pure := Matcher.pure
  bind := Matcher.bind

instance : LawfulMonad Matcher := LawfulMonad.mk' Matcher
  (fun step => by
    funext session
    simp only [Functor.map, Matcher.bind, Matcher.pure, Function.comp_apply, id_eq]
    split <;> simp_all)
  (fun _ _ => rfl)
  (fun step next last => by
    funext session
    simp only [Bind.bind, Matcher.bind]
    cases step session <;> rfl)

/-- Breaks the match off. -/
def stop (reason : Stop) : Matcher α := fun _ => .stopped reason

/-- Fails with a cause and changes nothing. -/
def fail (cause : Cause) : Matcher α := fun session => .failed cause session

/-- Turns failure into a value, so that the match can go on after it. -/
def attempt (step : Matcher α) : Matcher (Except Cause α) := fun session =>
  match step session with
  | .stopped reason => .stopped reason
  | .failed cause session => .matched (.error cause) session
  | .matched value session => .matched (.ok value) session

/-- Matches or fails as the result says. -/
def ofResult : Except Cause α → Matcher α
  | .ok value => Matcher.pure value
  | .error cause => fail cause

/-- The session as it is. -/
def session : Matcher Session := fun session => .matched session session

/-- Changes the session. -/
def modify (f : Session → Session) : Matcher Unit := fun session => .matched () (f session)

/-- The source as it is. -/
def source : Matcher Source := fun session => .matched session.source session

/-- The offset of the cursor. -/
def position : Matcher Nat := fun session => .matched session.source.pos session

/-- The memo as it is. -/
def memo : Matcher Memo := fun session => .matched session.memo session

/-- Changes the memo. -/
def modifyMemo (f : Memo → Memo) : Matcher Unit := fun session =>
  .matched () { session with memo := f session.memo }

/-- Adds an event to the trace. -/
def emit (event : Event) : Matcher Unit := fun session =>
  .matched () { session with trace := event :: session.trace }

/-- Tells the reporter something. -/
def tell (report : Report) : Matcher Unit := fun session =>
  .matched () { session with reporter := session.reporter.observe report }

/-- Moves the cursor to an offset. -/
def moveTo (pos : Nat) : Matcher Unit := fun session =>
  match session.source.setPos? pos with
  | some source => .matched () { session with source }
  | none => .stopped .misplaced

/-- Consumes `n` bytes. -/
def consume (n : Nat) : Matcher Slice := fun session =>
  match session.source.consume? n with
  | some (slice, source) => .matched slice { session with source }
  | none => .stopped .misplaced

/-- A cause with the innermost label. -/
def cause (message : Message) (offset : Nat) (children : List Cause) : Matcher Cause :=
  fun session => .matched { message, offset, label := session.labels.head?, children } session

/-- Fails with a new cause, after the reporter was told of it. -/
def refuse (message : Message) (offset : Nat) (children : List Cause) : Matcher α := do
  let cause ← cause message offset children
  tell (.recorded cause)
  fail cause

/-- Notes a key whose value was overwritten. -/
def noteOverwritten (key : String) : Matcher Unit := fun session =>
  .matched () { session with
    overwritten := key :: session.overwritten
    trace := .keyOverwritten key :: session.trace }

/-- Notes keys whose values were overwritten, if they are to be noted. -/
def noteAllOverwritten : List String → Matcher Unit
  | [] => Matcher.pure ()
  | key :: rest => do
    if (← session).warn then noteOverwritten key
    noteAllOverwritten rest

/-- The flat value of a raw one; `named` says that it is about to be stored under a name. -/
def flatten (named : Bool) (raw : Raw) : Matcher Tree := do
  let flat := raw.flatten named
  noteAllOverwritten flat.overwritten
  return flat.tree

end Matcher

end Packrat
