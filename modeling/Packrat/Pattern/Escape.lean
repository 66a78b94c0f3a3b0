import Packrat.Pattern.Basic

/-!
# Escapes in patterns

The parts of the pattern syntax that are the same inside and outside of brackets: the flags that are
in force, the reasons for which a text is no pattern, blanks that are skipped under the flag `x`,
and what follows a backslash.
-/

namespace Packrat.Pattern

/-- Why a text is no pattern. -/
inductive Fault where
  /-- A group is not closed. -/
  | groupUnclosed
  /-- A closing parenthesis has no partner. -/
  | groupUnopened
  /-- The name of a group is empty, malformed or taken. -/
  | groupName
  /-- Looking ahead or behind is not supported. -/
  | lookAround
  /-- References to earlier groups are not supported. -/
  | backReference
  /-- The flags of a group are malformed. -/
  | flags
  /-- A repetition has nothing to repeat. -/
  | operandMissing
  /-- The bounds of a repetition are malformed or crossed. -/
  | bounds
  /-- What follows a backslash means nothing. -/
  | escape
  /-- A bracket is not closed. -/
  | classUnclosed
  /-- The ends of a range are no characters or are crossed. -/
  | classRange
  /-- What stands between brackets is no character and no set. -/
  | classItem
  /-- A set reaches beyond the first 128 characters while the flag `u` is off. -/
  | notText
  /-- The text nests too deep. -/
  | tooDeep
  /-- The pattern takes too much room once its repetitions are written out. -/
  | tooLarge
  deriving DecidableEq, Repr

/-- The flags in force at a place of a pattern. -/
structure Flags where
  /-- `i`: letters match in either case. -/
  ignoreCase : Bool := false
  /-- `m`: line anchors match at every line. -/
  multiLine : Bool := false
  /-- `s`: a dot matches a line end too. -/
  dotAll : Bool := false
  /-- `R`: a carriage return may end a line. -/
  crlf : Bool := false
  /-- `x`: blanks and comments are skipped. -/
  extended : Bool := false
  /-- `u`: sets range over all characters. -/
  unicode : Bool := true
  deriving DecidableEq, Repr

/-- Drops blanks and comments, which run from `#` to the end of the line. -/
def skipBlanks : Bool → List Char → List Char
  | _, [] => []
  | true, c :: cs => skipBlanks (c != '\n') cs
  | false, c :: cs =>
    if isBlank c then skipBlanks false cs
    else if c = '#' then skipBlanks true cs
    else c :: cs

namespace Flags

/-- Drops what the flags say is to be skipped. -/
def skip (flags : Flags) (cs : List Char) : List Char :=
  if flags.extended then skipBlanks false cs else cs

/-- The character that decides whether a hyphen in front of `cs` makes a range. Blanks are passed
over, and so is the mark of a comment, but not what the comment says; if nothing else follows, it is
whatever comes next. -/
def glance (flags : Flags) (cs : List Char) : Option Char :=
  if flags.extended then
    match cs.filter fun c => !isBlank c with
    | '#' :: c :: _ => some c
    | ['#'] => cs.head?
    | c :: _ => some c
    | [] => cs.head?
  else cs.head?

/-- The characters that differ from one of the set only in case. -/
def foldSet (flags : Flags) (set : CharSet) : CharSet :=
  if flags.unicode then .folded set else .inter (.folded set) .ascii

/-- The set that the flags make of a set: with `i`, it is closed under case. -/
def close (flags : Flags) (set : CharSet) : CharSet :=
  if flags.ignoreCase then flags.foldSet set else set

/-- All other characters, if the flags let a set range over all characters. -/
def negate (flags : Flags) (set : CharSet) : Except Fault CharSet :=
  if flags.unicode then .ok (.compl set) else .error .notText

/-- The set of one character that stands for itself. -/
def literal (flags : Flags) (c : Char) : CharSet :=
  if flags.unicode || c.toNat < 0x80 then flags.close (.single c) else .single c

/-- The set that a dot stands for. -/
def dot (flags : Flags) : Except Fault CharSet :=
  if !flags.unicode then .error .notText
  else if flags.dotAll then .ok (.compl .none)
  else if flags.crlf then .ok (.compl (.union (.single '\n') (.single '\r')))
  else .ok (.compl (.single '\n'))

/-- The characters that words are made of. -/
def wordSet (flags : Flags) : CharSet := if flags.unicode then .word else .inter .word .ascii

/-- The set that the letter of an escape stands for. -/
def perlSet? (flags : Flags) : Char → Option CharSet
  | 'w' => some flags.wordSet
  | 'd' => some (if flags.unicode then .digit else .inter .digit .ascii)
  | 's' => some (if flags.unicode then .blank else .inter .blank .ascii)
  | _ => none

/-- What a line start means. -/
def lineStart (flags : Flags) : Look :=
  if flags.multiLine then .lineStart flags.crlf else .textStart

/-- What a line end means. -/
def lineEnd (flags : Flags) : Look :=
  if flags.multiLine then .lineEnd flags.crlf else .textEnd

end Flags

/-- What a single character or escape stands for. -/
inductive Primitive where
  /-- A character that stands for itself. -/
  | char (c : Char)
  /-- A set. -/
  | set (s : CharSet)
  /-- A condition on the surroundings. -/
  | look (l : Look)

/-- Characters that mean something by themselves and can always be escaped. -/
def isMeta (c : Char) : Bool := "\\.+*?()|[]\x7b\x7d^$#&-~".toList.contains c

/-- Whether a backslash in front of the character changes nothing else: any of the first 128
characters that is no letter, no digit and no angle bracket. -/
def isEscapable (c : Char) : Bool :=
  isMeta c || (c.toNat < 0x80 && !c.isAlphanum && c != '<' && c != '>')

/-- The value of a hexadecimal digit. -/
def hexValue? (c : Char) : Option Nat :=
  if c.isDigit then some (c.toNat - '0'.toNat)
  else if 'a' ≤ c && c ≤ 'f' then some (c.toNat - 'a'.toNat + 10)
  else if 'A' ≤ c && c ≤ 'F' then some (c.toNat - 'A'.toNat + 10)
  else none

/-- The character with code `n`. -/
def charOfCode (n : Nat) : Except Fault Char :=
  if n.isValidChar then .ok (Char.ofNat n) else .error .escape

/-- Reads exactly `count` hexadecimal digits. -/
def readDigits (flags : Flags) : Nat → Nat → List Char → Except Fault (Nat × List Char)
  | 0, value, cs => .ok (value, cs)
  | _ + 1, _, [] => .error .escape
  | count + 1, value, c :: cs =>
    match hexValue? c with
    | none => .error .escape
    | some digit => readDigits flags count (value * 16 + digit) (flags.skip cs)

/-- Reads hexadecimal digits up to a closing brace; `seen` tells whether there was one already. -/
def readBraced (flags : Flags) : Nat → Bool → Nat → List Char → Except Fault (Nat × List Char)
  | 0, _, _, _ => .error .escape
  | fuel + 1, seen, value, cs =>
    match flags.skip cs with
    | [] => .error .escape
    | '\x7d' :: rest => if seen then .ok (value, flags.skip rest) else .error .escape
    | c :: rest =>
      match hexValue? c with
      | none => .error .escape
      | some digit => readBraced flags fuel true (value * 16 + digit) rest

/-- Reads the code of a character, either so many digits or any number between braces. Two digits
stand for a byte when the flag `u` is off, and then only for one that is a character by itself. -/
def readCode (flags : Flags) (digits : Nat) (cs : List Char) :
    Except Fault (Primitive × List Char) := do
  match flags.skip cs with
  | '\x7b' :: rest =>
    let (value, rest) ← readBraced flags (rest.length + 1) false 0 rest
    return (.char (← charOfCode value), rest)
  | rest =>
    let (value, rest) ← readDigits flags digits 0 rest
    if digits = 2 && !flags.unicode && 0x80 ≤ value then .error .notText
    else return (.char (← charOfCode value), rest)

/-- The letters and hyphens at the start of the characters, and what follows them. -/
def readEdgeName (flags : Flags) : Nat → List Char → List Char × List Char
  | 0, cs => ([], cs)
  | fuel + 1, cs =>
    match cs with
    | [] => ([], [])
    | c :: rest =>
      if c.isAlpha || c = '-' then
        let (name, rest) := readEdgeName flags fuel (flags.skip rest)
        (c :: name, rest)
      else ([], cs)

/-- The word edge with a name. -/
def edgeOfName? : String → Option WordEdge
  | "start" => some .start
  | "end" => some .stop
  | "start-half" => some .startHalf
  | "end-half" => some .stopHalf
  | _ => none

/-- Reads a word boundary, which may be narrowed by a name between braces. Braces that do not start
with a letter or a hyphen are left for the bounds of a repetition. -/
def readBoundary (flags : Flags) (cs : List Char) : Except Fault (Primitive × List Char) :=
  let plain := Primitive.look (.wordEdge .boundary flags.wordSet)
  match cs with
  | '\x7b' :: rest =>
    match flags.skip rest with
    | [] => .error .escape
    | c :: tail =>
      if c.isAlpha || c = '-' then
        let (name, rest) := readEdgeName flags (tail.length + 1) (c :: tail)
        match rest, edgeOfName? (String.ofList name) with
        | '\x7d' :: rest, some edge => .ok (.look (.wordEdge edge flags.wordSet), rest)
        | _, _ => .error .escape
      else .ok (plain, cs)
  | _ => .ok (plain, cs)

/-- Reads what follows a backslash. -/
def readEscape (flags : Flags) : List Char → Except Fault (Primitive × List Char)
  | [] => .error .escape
  | c :: rest =>
    if c.isDigit then .error .backReference
    else if isEscapable c then .ok (.char c, rest)
    else
      match c with
      | 'x' => readCode flags 2 rest
      | 'u' => readCode flags 4 rest
      | 'U' => readCode flags 8 rest
      | 'a' => .ok (.char '\x07', rest)
      | 'f' => .ok (.char '\x0c', rest)
      | 't' => .ok (.char '\t', rest)
      | 'n' => .ok (.char '\n', rest)
      | 'r' => .ok (.char '\r', rest)
      | 'v' => .ok (.char '\x0b', rest)
      | 'A' => .ok (.look .textStart, rest)
      | 'z' => .ok (.look .textEnd, rest)
      | 'b' => readBoundary flags rest
      | 'B' => .ok (.look (.wordEdge .interior flags.wordSet), rest)
      | '<' => .ok (.look (.wordEdge .start flags.wordSet), rest)
      | '>' => .ok (.look (.wordEdge .stop flags.wordSet), rest)
      | _ =>
        match flags.perlSet? c with
        | some set => .ok (.set set, rest)
        | none =>
          match flags.perlSet? c.toLower with
          | some set => (flags.negate set).map fun s => (.set s, rest)
          | none => .error .escape

end Packrat.Pattern
