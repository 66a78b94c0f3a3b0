import Packrat.Pattern.Bracket
import Packrat.Pattern.Limits
import Packrat.Text.Alphabetic
import Packrat.Text.Numeric

/-!
# Reading patterns

A pattern is read from left to right. Open groups wait on a stack with the alternatives and parts
read so far; a set of flags without a body holds until the group around it ends. `Pattern.read`
reads a whole text, and refuses one that is nested too deep or describes too large a pattern;
`Pattern.ofText` reads a text that is to describe one whole character.
-/

namespace Packrat.Pattern

/-- A group that is still open, or the pattern as a whole. -/
structure Group where
  /-- The alternatives that are complete, the last one first. -/
  branches : List (Nested Pattern) := []
  /-- The parts of the current alternative, the last one first. A part of none marks flags. -/
  parts : List (Nested (Option Pattern)) := []
  /-- The flags in force. -/
  flags : Flags := {}
  /-- Whether the group can be referred to. -/
  captures : Bool := false

namespace Group

/-- The current alternative. -/
def branch (g : Group) : Nested Pattern :=
  .gather (fun parts => concatAll (parts.filterMap id)) g.parts.reverse

/-- What the group holds, once it is closed. -/
def content (g : Group) : Nested Pattern := .gather eitherAll (g.branch :: g.branches).reverse

/-- The group as a part of the one around it. -/
def close (g : Group) : Nested Pattern :=
  g.content.lift fun p => if g.captures then .capture p else p

/-- Adds a part to the current alternative. -/
def push (g : Group) (p : Nested Pattern) : Group :=
  { g with parts := ⟨some p.value, p.depth⟩ :: g.parts }

/-- Adds a part without a pattern, which changes the flags. -/
def setFlags (g : Group) (flags : Flags) : Group :=
  { g with flags, parts := ⟨none, 0⟩ :: g.parts }

/-- Begins the next alternative. -/
def next (g : Group) : Group := { g with branches := g.branch :: g.branches, parts := [] }

/-- Puts the last part under a repetition. -/
def repeatLast (g : Group) (min : Nat) (max : Option Nat) : Except Fault Group :=
  match g.parts with
  | ⟨some p, depth⟩ :: rest => .ok { g with parts := ⟨some (.times p min max), depth + 1⟩ :: rest }
  | _ => .error .operandMissing

end Group

/-- Reads decimal digits; `seen` tells whether there was one already. -/
def readDecimalFrom (flags : Flags) : Nat → Bool → Nat → List Char → Except Fault (Nat × List Char)
  | 0, _, _, _ => .error .bounds
  | fuel + 1, seen, value, cs =>
    match cs with
    | c :: rest =>
      if c.isDigit then
        readDecimalFrom flags fuel true (value * 10 + (c.toNat - '0'.toNat)) (flags.skip rest)
      else if seen then .ok (value, cs) else .error .bounds
    | [] => if seen then .ok (value, []) else .error .bounds

/-- Reads a decimal number of 32 bits, with blanks around it. -/
def readDecimal (flags : Flags) (cs : List Char) : Except Fault (Nat × List Char) := do
  let (value, rest) ← readDecimalFrom flags (cs.length + 1) false 0 (cs.dropWhile isBlank)
  if value < UInt32.size then return (value, flags.skip (rest.dropWhile isBlank))
  else .error .bounds

/-- Drops the mark of a reluctant repetition. -/
def dropReluctant : List Char → List Char
  | '?' :: rest => rest
  | cs => cs

/-- Reads the bounds of a repetition from behind their opening brace. -/
def readBounds (flags : Flags) (cs : List Char) :
    Except Fault ((Nat × Option Nat) × List Char) := do
  let (min, rest) ← readDecimal flags (flags.skip cs)
  let (max, rest) ← match rest with
    | ',' :: rest =>
      match flags.skip rest with
      | '\x7d' :: rest => pure (none, '\x7d' :: rest)
      | rest => do
        let (max, rest) ← readDecimal flags rest
        pure (some max, rest)
    | rest => pure (some min, rest)
  match rest with
  | '\x7d' :: rest =>
    if max.all (min ≤ ·) then return ((min, max), dropReluctant (flags.skip rest))
    else .error .bounds
  | _ => .error .bounds

/-- The flags with the one of the given letter set to `value`. -/
def Flags.set? (flags : Flags) (value : Bool) : Char → Option Flags
  | 'i' => some { flags with ignoreCase := value }
  | 'm' => some { flags with multiLine := value }
  | 's' => some { flags with dotAll := value }
  | 'U' => some flags
  | 'u' => some { flags with unicode := value }
  | 'R' => some { flags with crlf := value }
  | 'x' => some { flags with extended := value }
  | _ => none

/-- Reads flags up to a colon or a closing parenthesis, which is left in place. No letter may come
twice, and a hyphen, after which flags are switched off, needs a letter behind it. -/
def readFlags : Flags → (seen : List Char) → List Char → Except Fault (Flags × List Char)
  | _, _, [] => .error .flags
  | flags, seen, c :: rest =>
    if c = ':' || c = ')' then
      if seen.head? = some '-' then .error .flags else .ok (flags, c :: rest)
    else if seen.contains c then .error .flags
    else if c = '-' then readFlags flags ('-' :: seen) rest
    else
      match flags.set? (!seen.contains '-') c with
      | none => .error .flags
      | some flags => readFlags flags (c :: seen) rest

/-- Whether the character may stand in the name of a group. A name starts with a letter or a low
line and goes on with letters, numerals, low lines, points and brackets. -/
def isNameChar (isFirst : Bool) (c : Char) : Bool :=
  c == '_' || isAlphabetic c || (!isFirst && (isNumeral c || ".[]".toList.contains c))

/-- Reads the name of a group up to the angle bracket that ends it. -/
def readGroupName (cs : List Char) : Except Fault (String × List Char) :=
  let name := cs.takeWhile (· != '>')
  match name, cs.dropWhile (· != '>') with
  | first :: others, '>' :: rest =>
    if isNameChar true first && others.all (isNameChar false) then
      .ok (String.ofList name, rest)
    else .error .groupName
  | _, _ => .error .groupName

/-- What an opening parenthesis begins. -/
inductive Opening where
  /-- A group with the given flags that cannot be referred to. -/
  | plain (flags : Flags)
  /-- A group that can be referred to, and its name if it has one. -/
  | capture (name : Option String)
  /-- Flags for the rest of the group around it. -/
  | flags (flags : Flags)

/-- Reads the start of a group from behind its opening parenthesis. -/
def readOpening (flags : Flags) (cs : List Char) : Except Fault (Opening × List Char) :=
  match flags.skip cs with
  | '?' :: '=' :: _ => .error .lookAround
  | '?' :: '!' :: _ => .error .lookAround
  | '?' :: '<' :: '=' :: _ => .error .lookAround
  | '?' :: '<' :: '!' :: _ => .error .lookAround
  | '?' :: 'P' :: '<' :: rest => do
    let (name, rest) ← readGroupName rest
    return (.capture (some name), rest)
  | '?' :: '<' :: rest => do
    let (name, rest) ← readGroupName rest
    return (.capture (some name), rest)
  | '?' :: ')' :: _ => .error .operandMissing
  | '?' :: rest => do
    match ← readFlags flags [] rest with
    | (flags, ':' :: rest) => return (.plain flags, rest)
    | (flags, rest) => return (.flags flags, rest.drop 1)
  | rest => .ok (.capture none, rest)

/-- Reads a single character or an escape outside of brackets. -/
def readPrimitive (flags : Flags) : List Char → Except Fault (Pattern × List Char)
  | [] => .ok (.empty, [])
  | '\\' :: rest => do
    match ← readEscape flags rest with
    | (.char c, rest) => return (.one (flags.literal c), rest)
    | (.set s, rest) => return (.one s, rest)
    | (.look l, rest) => return (.look l, rest)
  | '.' :: rest => do return (.one (← flags.dot), rest)
  | '^' :: rest => .ok (.look flags.lineStart, rest)
  | '$' :: rest => .ok (.look flags.lineEnd, rest)
  | c :: rest => .ok (.one (flags.literal c), rest)

/-- Reads on. `outer` holds the groups around the current one, the innermost first, and `names` the
names of groups used so far. Every step takes at least one character, so a bound of the number of
characters is never reached. -/
def readFrom : Nat → (outer : List Group) → Group → (names : List String) → List Char →
    Except Fault (Nested Pattern)
  | 0, _, _, _, _ => .error .groupUnclosed
  | fuel + 1, outer, current, names, cs =>
    match current.flags.skip cs with
    | [] => if outer.isEmpty then .ok current.content else .error .groupUnclosed
    | '(' :: rest => do
      match ← readOpening current.flags rest with
      | (.flags flags, rest) => readFrom fuel outer (current.setFlags flags) names rest
      | (.plain flags, rest) => readFrom fuel (current :: outer) { flags } names rest
      | (.capture name, rest) =>
        let group : Group := { flags := current.flags, captures := true }
        if name.any names.contains then .error .groupName
        else readFrom fuel (current :: outer) group (name.toList ++ names) rest
    | ')' :: rest =>
      match outer with
      | [] => .error .groupUnopened
      | around :: outer => readFrom fuel outer (around.push current.close) names rest
    | '|' :: rest => readFrom fuel outer current.next names rest
    | '[' :: rest => do
      let (set, rest) ← readClass current.flags rest
      readFrom fuel outer (current.push ⟨.one set.value, set.depth⟩) names rest
    | '?' :: rest => do
      readFrom fuel outer (← current.repeatLast 0 (some 1)) names (dropReluctant rest)
    | '*' :: rest => do
      readFrom fuel outer (← current.repeatLast 0 none) names (dropReluctant rest)
    | '+' :: rest => do
      readFrom fuel outer (← current.repeatLast 1 none) names (dropReluctant rest)
    | '\x7b' :: rest => do
      let ((min, max), rest) ← readBounds current.flags rest
      readFrom fuel outer (← current.repeatLast min max) names rest
    | cs => do
      let (part, rest) ← readPrimitive current.flags cs
      readFrom fuel outer (current.push ⟨part, 0⟩) names rest

/-- Reads a whole text as a pattern. -/
def read (s : String) : Except Fault Pattern := do
  let cs := s.toList
  let found ← readFrom (cs.length + 1) [] {} [] cs
  if nestingLimit < found.depth then .error .tooDeep
  else if sizeLimit < frameSize + found.value.size then .error .tooLarge
  else return found.value

/-- The pattern of a text that is to match one whole character: it is read between a text start and
a text end, in a group of its own. -/
def ofText (s : String) : Except Fault Pattern := read ("^(?:" ++ s ++ ")$")

end Packrat.Pattern
