import Packrat.Pattern.Escape
import Packrat.Pattern.Limits

/-!
# Bracketed sets

A set between brackets lists characters, ranges, escapes, named sets and further brackets. Two
hyphens, two ampersands or two tildes combine what stands on their left with what follows, from left
to right. An opening bracket that starts a named set is tried as such first.
-/

namespace Packrat.Pattern

/-- The sets that can be named between colons. -/
def namedSet? : String → Option CharSet
  | "alnum" => some (.union (.range '0' '9') (.union (.range 'A' 'Z') (.range 'a' 'z')))
  | "alpha" => some (.union (.range 'A' 'Z') (.range 'a' 'z'))
  | "ascii" => some .ascii
  | "blank" => some (.union (.single '\t') (.single ' '))
  | "cntrl" => some (.union (.range '\x00' '\x1f') (.single '\x7f'))
  | "digit" => some (.range '0' '9')
  | "graph" => some (.range '!' '~')
  | "lower" => some (.range 'a' 'z')
  | "print" => some (.range ' ' '~')
  | "punct" =>
    some (.union (.union (.range '!' '/') (.range ':' '@')) (.union (.range '[' '\x60')
      (.range '\x7b' '~')))
  | "space" => some (.union (.range '\t' '\r') (.single ' '))
  | "upper" => some (.range 'A' 'Z')
  | "word" =>
    some (.union (.union (.range '0' '9') (.range 'A' 'Z')) (.union (.single '_') (.range 'a' 'z')))
  | "xdigit" => some (.union (.range '0' '9') (.union (.range 'A' 'F') (.range 'a' 'f')))
  | _ => none

/-- Reads a named set from behind its opening bracket. An answer of none means that the bracket
opens something else. -/
def readNamed? (flags : Flags) : List Char → Option (Except Fault CharSet × List Char)
  | ':' :: rest =>
    let (negated, rest) := match rest with
      | '^' :: tail => (true, tail)
      | _ => (false, rest)
    let name := rest.takeWhile (· != ':')
    match rest.dropWhile (· != ':'), namedSet? (String.ofList name) with
    | ':' :: ']' :: tail, some set =>
      let closed := flags.close set
      some (if negated then flags.negate closed else .ok closed, tail)
    | _, _ => none
  | _ => none

/-- How two sets between the same brackets are combined. -/
inductive SetOperator where
  /-- `&&` -/
  | inter
  /-- `--` -/
  | diff
  /-- `~~` -/
  | symDiff

/-- What has been read in front of the place reached inside brackets. -/
inductive ClassFrame where
  /-- An open bracket, and the items of the one around it, the last one first. -/
  | bracket (negated : Bool) (outer : List (Nested CharSet))
  /-- An operator and its left operand. -/
  | operator (op : SetOperator) (left : Nested CharSet)

/-- Combines two sets; case is ignored in both before they are combined. -/
def SetOperator.combine (flags : Flags) (op : SetOperator) (left right : CharSet) : CharSet :=
  let left := flags.close left
  let right := flags.close right
  match op with
  | .inter => .inter left right
  | .diff => .diff left right
  | .symDiff => .symDiff left right

/-- Puts the items read last together, and applies the operator on top of the stack to them. -/
def applyOperator (flags : Flags) (items : List (Nested CharSet)) :
    List ClassFrame → Nested CharSet × List ClassFrame
  | .operator op left :: stack =>
    (Nested.lift₂ (op.combine flags) left (.gather CharSet.unionAll items), stack)
  | stack => (.gather CharSet.unionAll items, stack)

/-- Collects the hyphens at the start of a bracket, which stand for themselves. -/
def leadingHyphens (flags : Flags) : Nat → List Char → List (Nested CharSet) × List Char
  | 0, cs => ([], cs)
  | fuel + 1, cs =>
    match cs with
    | '-' :: rest =>
      let (items, rest) := leadingHyphens flags fuel (flags.skip rest)
      (⟨.single '-', 0⟩ :: items, rest)
    | _ => ([], cs)

/-- Reads the start of a bracket: a negation, leading hyphens, or a closing bracket that stands for
itself because nothing is in front of it. -/
def openBracket (flags : Flags) (cs : List Char) : Bool × List (Nested CharSet) × List Char :=
  let cs := flags.skip cs
  let (negated, cs) := match cs with
    | '^' :: rest => (true, flags.skip rest)
    | _ => (false, cs)
  match cs with
  | ']' :: rest => (negated, [⟨.single ']', 0⟩], flags.skip rest)
  | _ => (negated, leadingHyphens flags (cs.length + 1) cs)

/-- Reads one character or escape between brackets. -/
def readItem (flags : Flags) : List Char → Except Fault (Primitive × List Char)
  | [] => .error .classUnclosed
  | '\\' :: rest => readEscape flags rest
  | c :: rest => .ok (.char c, rest)

/-- A character may stand between brackets unless the flag `u` is off and it lies beyond the first
128. -/
def checkedChar (flags : Flags) (c : Char) : Except Fault Char :=
  if flags.unicode || c.toNat < 0x80 then .ok c else .error .notText

/-- The set that one item between brackets stands for. -/
def itemSet (flags : Flags) : Primitive → Except Fault CharSet
  | .char c => (checkedChar flags c).map .single
  | .set s => .ok s
  | .look _ => .error .classItem

/-- The character at the end of a range. -/
def rangeEnd (flags : Flags) : Primitive → Except Fault Char
  | .char c => checkedChar flags c
  | _ => .error .classRange

/-- Reads a single item or a range. -/
def readRange (flags : Flags) (cs : List Char) : Except Fault (CharSet × List Char) := do
  let (item, rest) ← readItem flags cs
  match flags.skip rest with
  | [] => .error .classUnclosed
  | '-' :: tail =>
    if flags.glance tail = some ']' || flags.glance tail = some '-' then
      return (← itemSet flags item, '-' :: tail)
    else
      let (upper, rest) ← readItem flags (flags.skip tail)
      let first ← rangeEnd flags item
      let last ← rangeEnd flags upper
      if first ≤ last then return (.range first last, rest) else .error .classRange
  | rest => return (← itemSet flags item, rest)

/-- Reads on inside brackets; `items` holds what has been read there, the last one first. Every step
takes at least one character, so a bound of the number of characters is never reached. -/
def readClassFrom (flags : Flags) : Nat → List ClassFrame → (items : List (Nested CharSet)) →
    List Char → Except Fault (Nested CharSet × List Char)
  | 0, _, _, _ => .error .classUnclosed
  | fuel + 1, stack, items, cs =>
    match flags.skip cs with
    | [] => .error .classUnclosed
    | '[' :: rest =>
      match readNamed? flags rest with
      | some (named, rest) => do readClassFrom flags fuel stack (⟨← named, 0⟩ :: items) rest
      | none =>
        let (negated, inner, rest) := openBracket flags rest
        readClassFrom flags fuel (.bracket negated items :: stack) inner rest
    | ']' :: rest =>
      let (whole, stack) := applyOperator flags items stack
      match stack with
      | .bracket negated outer :: stack => do
        let closed := whole.lift flags.close
        let set ← if negated then flags.negate closed.value else pure closed.value
        match stack with
        | [] => return (⟨set, closed.depth⟩, rest)
        | _ => readClassFrom flags fuel stack (⟨set, closed.depth⟩ :: outer) rest
      | _ => .error .classUnclosed
    | '&' :: '&' :: rest =>
      let (left, stack) := applyOperator flags items stack
      readClassFrom flags fuel (.operator .inter left :: stack) [] rest
    | '-' :: '-' :: rest =>
      let (left, stack) := applyOperator flags items stack
      readClassFrom flags fuel (.operator .diff left :: stack) [] rest
    | '~' :: '~' :: rest =>
      let (left, stack) := applyOperator flags items stack
      readClassFrom flags fuel (.operator .symDiff left :: stack) [] rest
    | cs => do
      let (range, rest) ← readRange flags cs
      readClassFrom flags fuel stack (⟨range, 0⟩ :: items) rest

/-- Reads a bracketed set from behind its opening bracket. -/
def readClass (flags : Flags) (cs : List Char) : Except Fault (Nested CharSet × List Char) :=
  let (negated, items, rest) := openBracket flags cs
  readClassFrom flags (cs.length + 1) [.bracket negated []] items rest

end Packrat.Pattern
