import Packrat.Decimal
import Packrat.Text.Quoted

/-!
# Reading JSON

The parts of JSON that settings are read with: blanks, words, strings, numbers, and values of any
kind that are only stepped over. Each function takes the characters that are left and gives back
what it read and the characters behind it, or the first thing that is wrong.
-/

namespace Packrat.Json

/-- A value found where another kind of value is wanted. -/
inductive Found where
  /-- The word null. -/
  | null
  /-- A truth value. -/
  | bool (b : Bool)
  /-- A whole number. -/
  | integer (n : Int)
  /-- Any other number. -/
  | float (x : Float)
  /-- A string. -/
  | string (s : String)
  /-- A list. -/
  | list
  /-- An object. -/
  | object

/-- The value in words. -/
def Found.render : Found → String
  | .null => "null"
  | .bool true => "boolean \x60true\x60"
  | .bool false => "boolean \x60false\x60"
  | .integer n => s!"integer \x60{n}\x60"
  | .float x => s!"floating point \x60{(Decimal.ofFloat x).render}\x60"
  | .string s => s!"string {quoted s}"
  | .list => "sequence"
  | .object => "map"

/-- What is wrong with a text. -/
inductive Fault where
  /-- The text ends where a value is due. -/
  | endInValue
  /-- The text ends in an object. -/
  | endInObject
  /-- The text ends in a list. -/
  | endInList
  /-- The text ends in a string. -/
  | endInString
  /-- No value starts here. -/
  | valueExpected
  /-- A word is misspelt. -/
  | wordExpected
  /-- There is no colon behind a key. -/
  | colonExpected
  /-- There is no comma behind an entry. -/
  | objectCommaExpected
  /-- There is no comma behind an item. -/
  | listCommaExpected
  /-- A key is no string. -/
  | keyNotString
  /-- Nothing follows a comma. -/
  | trailingComma
  /-- Something follows the value. -/
  | trailingCharacters
  /-- A number is malformed. -/
  | invalidNumber
  /-- A number is too large. -/
  | numberOutOfRange
  /-- What follows a backslash means nothing. -/
  | invalidEscape
  /-- A control character stands in a string. -/
  | controlCharacter
  /-- Half of a pair of codes stands alone. -/
  | loneSurrogate
  /-- The first half of a pair of codes is not followed by an escape. -/
  | pairExpected
  /-- A choice is none of those offered. -/
  | unknownVariant (name : String) (offered : List String)
  /-- A field is given twice. -/
  | duplicateField (name : String)
  /-- A value is of another kind than wanted. -/
  | invalidType (found : Found) (wanted : String)

/-- A name between backquotes. -/
def backquoted (name : String) : String := "\x60" ++ name ++ "\x60"

/-- The fault in words. -/
def Fault.message : Fault → String
  | .endInValue => "EOF while parsing a value"
  | .endInObject => "EOF while parsing an object"
  | .endInList => "EOF while parsing a list"
  | .endInString => "EOF while parsing a string"
  | .valueExpected => "expected value"
  | .wordExpected => "expected ident"
  | .colonExpected => "expected \x60:\x60"
  | .objectCommaExpected => "expected \x60,\x60 or \x60\x7d\x60"
  | .listCommaExpected => "expected \x60,\x60 or \x60]\x60"
  | .keyNotString => "key must be a string"
  | .trailingComma => "trailing comma"
  | .trailingCharacters => "trailing characters"
  | .invalidNumber => "invalid number"
  | .numberOutOfRange => "number out of range"
  | .invalidEscape => "invalid escape"
  | .controlCharacter => "control character (\\u0000-\\u001F) found while parsing a string"
  | .loneSurrogate => "lone leading surrogate in hex escape"
  | .pairExpected => "unexpected end of hex escape"
  | .unknownVariant name offered =>
    "unknown variant " ++ backquoted name ++ ", expected one of "
      ++ ", ".intercalate (offered.map backquoted)
  | .duplicateField name => "duplicate field " ++ backquoted name
  | .invalidType found wanted => "invalid type: " ++ found.render ++ ", expected " ++ wanted

/-- Whether the character is a blank between values. -/
def isBlank (c : Char) : Bool := c == ' ' || c == '\n' || c == '\t' || c == '\r'

/-- Drops the blanks in front. -/
def skipBlanks (cs : List Char) : List Char := cs.dropWhile isBlank

/-- Reads the letters of a word. -/
def readWord : (word : List Char) → List Char → Except Fault (List Char)
  | [], cs => .ok cs
  | _ :: _, [] => .error .endInValue
  | w :: word, c :: cs => if w = c then readWord word cs else .error .wordExpected

/-! ## Strings -/

/-- The value of a hexadecimal digit. -/
def hexValue? (c : Char) : Option Nat :=
  if '0' ≤ c && c ≤ '9' then some (c.toNat - '0'.toNat)
  else if 'a' ≤ c && c ≤ 'f' then some (c.toNat - 'a'.toNat + 10)
  else if 'A' ≤ c && c ≤ 'F' then some (c.toNat - 'A'.toNat + 10)
  else none

/-- Reads a code of four hexadecimal digits. The text has to go on for at least four bytes. -/
def readHex : List Char → Except Fault (Nat × List Char)
  | a :: b :: c :: d :: rest =>
    match hexValue? a, hexValue? b, hexValue? c, hexValue? d with
    | some a, some b, some c, some d => .ok (((a * 16 + b) * 16 + c) * 16 + d, rest)
    | _, _, _, _ => .error .invalidEscape
  | cs => if cs.foldl (fun n c => n + c.utf8Size) 0 < 4 then .error .endInString
    else .error .invalidEscape

/-- Whether the code is the first half of a pair. -/
def isLeading (code : Nat) : Bool := 0xd800 ≤ code && code ≤ 0xdbff

/-- Whether the code is the second half of a pair. -/
def isTrailing (code : Nat) : Bool := 0xdc00 ≤ code && code ≤ 0xdfff

/-- Reads the code of a character behind its mark; characters beyond the first plane take a pair of
codes. -/
def readCode (cs : List Char) : Except Fault (Char × List Char) := do
  let (code, rest) ← readHex cs
  if isTrailing code then .error .loneSurrogate
  else if isLeading code then
    match rest with
    | [] => .error .endInString
    | '\\' :: [] => .error .endInString
    | '\\' :: 'u' :: rest => do
      let (code', rest) ← readHex rest
      if isTrailing code' then
        return (Char.ofNat (0x10000 + (code - 0xd800) * 0x400 + (code' - 0xdc00)), rest)
      else .error .loneSurrogate
    | _ => .error .pairExpected
  else return (Char.ofNat code, rest)

/-- The character that a letter behind a backslash stands for. -/
def escaped? : Char → Option Char
  | '"' => some '"'
  | '\\' => some '\\'
  | '/' => some '/'
  | 'b' => some '\x08'
  | 'f' => some '\x0c'
  | 'n' => some '\n'
  | 'r' => some '\r'
  | 't' => some '\t'
  | _ => none

/-- Reads a string from behind its opening quote; `seen` are its characters so far, the last one
first. Every step takes at least one character, so a bound of the number of characters is never
reached. -/
def readStringFrom : (bound : Nat) → (seen : List Char) → List Char →
    Except Fault (String × List Char)
  | 0, _, _ => .error .endInString
  | _ + 1, _, [] => .error .endInString
  | _ + 1, seen, '"' :: rest => .ok (String.ofList seen.reverse, rest)
  | _ + 1, _, '\\' :: [] => .error .endInString
  | bound + 1, seen, '\\' :: 'u' :: rest => do
    let (c, rest) ← readCode rest
    readStringFrom bound (c :: seen) rest
  | bound + 1, seen, '\\' :: c :: rest =>
    match escaped? c with
    | some c => readStringFrom bound (c :: seen) rest
    | none => .error .invalidEscape
  | bound + 1, seen, c :: rest =>
    if c.toNat < 0x20 then .error .controlCharacter else readStringFrom bound (c :: seen) rest

/-- Reads a string from behind its opening quote. -/
def readString (cs : List Char) : Except Fault (String × List Char) :=
  readStringFrom (cs.length + 1) [] cs

/-- Steps over a string from behind its opening quote. Codes are not checked for pairs. -/
def skipStringFrom : (bound : Nat) → List Char → Except Fault (List Char)
  | 0, _ => .error .endInString
  | _ + 1, [] => .error .endInString
  | _ + 1, '"' :: rest => .ok rest
  | _ + 1, '\\' :: [] => .error .endInString
  | bound + 1, '\\' :: 'u' :: rest => do
    let (_, rest) ← readHex rest
    skipStringFrom bound rest
  | bound + 1, '\\' :: c :: rest =>
    if (escaped? c).isSome then skipStringFrom bound rest else .error .invalidEscape
  | bound + 1, c :: rest =>
    if c.toNat < 0x20 then .error .controlCharacter else skipStringFrom bound rest

/-- Steps over a string from behind its opening quote. -/
def skipString (cs : List Char) : Except Fault (List Char) := skipStringFrom (cs.length + 1) cs

/-! ## Numbers -/

/-- The value of a decimal digit. -/
def digitValue (c : Char) : Nat := c.toNat - '0'.toNat

/-- The largest whole number that digits are collected up to. -/
def maxSignificand : Nat := UInt64.size - 1

/-- The largest magnitude of a negative whole number. -/
def maxMagnitude : Nat := 0x8000000000000000

/-- The largest exponent that is read as it stands. -/
def maxExponent : Nat := 0x7fffffff

/-- The number `significand * 10 ^ exponent`, rounded at every step; `bound` limits the steps. -/
def scale : (bound : Nat) → Float → Int → Except Fault Float
  | 0, x, _ => .ok x
  | bound + 1, x, exponent =>
    if exponent.natAbs ≤ 308 then
      let power := Float.ofScientific 1 false exponent.natAbs
      if 0 ≤ exponent then
        let scaled := x * power
        if scaled.isInf then .error .numberOutOfRange else .ok scaled
      else .ok (x / power)
    else if x == 0 then .ok x
    else if 0 ≤ exponent then .error .numberOutOfRange
    else scale bound (x / Float.ofScientific 1 false 308) (exponent + 308)

/-- The number with a sign, a whole number of digits and a power of ten. -/
def ofParts (negative : Bool) (significand : Nat) (exponent : Int) : Except Fault Float := do
  let x ← scale 8 (Float.ofNat significand) exponent
  return if negative then -x else x

/-- The digits in front, and the characters behind them. -/
def splitDigits (cs : List Char) : List Char × List Char :=
  (cs.takeWhile Char.isDigit, cs.dropWhile Char.isDigit)

/-- Collects digits for as long as the number stays below the limit. Gives the number, how many
digits were collected and how many were left over. -/
def collect : (significand : Nat) → (taken : Nat) → List Char → Nat × Nat × Nat
  | significand, taken, [] => (significand, taken, 0)
  | significand, taken, c :: rest =>
    let next := significand * 10 + digitValue c
    if maxSignificand < next then (significand, taken, rest.length + 1)
    else collect next (taken + 1) rest

/-- Reads the exponent of a number from behind its mark. Exponents are cut off where no number could
tell the difference. -/
def readExponent (negative : Bool) (significand : Nat) (exponent : Int) (cs : List Char) :
    Except Fault (Float × List Char) := do
  let (down, cs) := match cs with
    | '+' :: rest => (false, rest)
    | '-' :: rest => (true, rest)
    | _ => (false, cs)
  match cs with
  | [] => .error .endInValue
  | c :: _ =>
    if !c.isDigit then .error .invalidNumber
    else
      let (digits, rest) := splitDigits cs
      let value := digits.foldl (fun n c => n * 10 + digitValue c) 0
      if maxExponent < value then
        if significand != 0 && !down then .error .numberOutOfRange
        else return (if negative then -0.0 else 0.0, rest)
      else
        let limit : Int := maxExponent
        let total :=
          if down then max (exponent - value) (-limit - 1) else min (exponent + value) limit
        -- every power below this one divides to nothing
        let total := max total (-2000)
        return (← ofParts negative significand total, rest)

/-- Reads what may follow the whole part and the fraction of a number. -/
def readTail (negative : Bool) (significand : Nat) (exponent : Int) (cs : List Char) :
    Except Fault (Float × List Char) :=
  match cs with
  | 'e' :: rest => readExponent negative significand exponent rest
  | 'E' :: rest => readExponent negative significand exponent rest
  | _ => do return (← ofParts negative significand exponent, cs)

/-- Reads the fraction of a number from behind its point. -/
def readFraction (negative : Bool) (significand : Nat) (exponent : Int) (cs : List Char) :
    Except Fault (Float × List Char) :=
  let (digits, rest) := splitDigits cs
  match digits, rest with
  | [], [] => .error .endInValue
  | [], _ => .error .invalidNumber
  | _, _ =>
    let (significand, taken, _) := collect significand 0 digits
    readTail negative significand (exponent - taken) rest

/-- Reads a number from behind its sign. -/
def readNumber (negative : Bool) (cs : List Char) : Except Fault (Found × List Char) :=
  let (digits, rest) := splitDigits cs
  match digits with
  | [] => .error (if rest.isEmpty then .endInValue else .invalidNumber)
  | '0' :: _ :: _ => .error .invalidNumber
  | _ =>
    let (significand, _, left) := collect 0 0 digits
    match rest with
    | '.' :: rest => do
      let (x, rest) ← readFraction negative significand left rest
      return (.float x, rest)
    | 'e' :: rest => do
      let (x, rest) ← readExponent negative significand left rest
      return (.float x, rest)
    | 'E' :: rest => do
      let (x, rest) ← readExponent negative significand left rest
      return (.float x, rest)
    | _ =>
      if left != 0 then do return (.float (← ofParts negative significand left), rest)
      else if !negative then .ok (.integer significand, rest)
      else if significand != 0 && significand ≤ maxMagnitude then
        .ok (.integer (-significand), rest)
      else .ok (.float (-(Float.ofNat significand)), rest)

/-- Steps over the exponent of a number from behind its mark. -/
def skipExponent (cs : List Char) : Except Fault (List Char) :=
  let cs := match cs with
    | '+' :: rest => rest
    | '-' :: rest => rest
    | _ => cs
  match splitDigits cs with
  | ([], _) => .error .invalidNumber
  | (_, rest) => .ok rest

/-- Steps over what may follow the whole part and the fraction of a number. -/
def skipTail : List Char → Except Fault (List Char)
  | 'e' :: rest => skipExponent rest
  | 'E' :: rest => skipExponent rest
  | cs => .ok cs

/-- Steps over a number from behind its sign. -/
def skipNumber (cs : List Char) : Except Fault (List Char) :=
  match splitDigits cs with
  | ([], _) => .error .invalidNumber
  | ('0' :: _ :: _, _) => .error .invalidNumber
  | (_, '.' :: rest) =>
    match splitDigits rest with
    | ([], _) => .error .invalidNumber
    | (_, rest) => skipTail rest
  | (_, rest) => skipTail rest

/-! ## Values of any kind -/

/-- What a value that is being stepped over is part of. -/
inductive Frame where
  /-- A list. -/
  | list
  /-- An object. -/
  | object

/-- The fault of a text that ends inside. -/
def Frame.endFault : Frame → Fault
  | .list => .endInList
  | .object => .endInObject

/-- The fault of a text that has no comma inside. -/
def Frame.commaFault : Frame → Fault
  | .list => .listCommaExpected
  | .object => .objectCommaExpected

/-- The character that ends it. -/
def Frame.closer : Frame → Char
  | .list => ']'
  | .object => '\x7d'

/-- Steps over the key in front of a value, if it is part of an object. -/
def Frame.skipKey (frame : Frame) (cs : List Char) : Except Fault (List Char) :=
  match frame with
  | .list => .ok cs
  | .object =>
    match skipBlanks cs with
    | '"' :: rest => do
      match skipBlanks (← skipString rest) with
      | ':' :: rest => .ok rest
      | [] => .error .endInObject
      | _ => .error .colonExpected
    | [] => .error .endInObject
    | _ => .error .keyNotString

/-- What is due next while a value is being stepped over. -/
inductive Due where
  /-- A value. -/
  | value
  /-- The end of the innermost list or object, or, with `comma`, a comma. -/
  | closing (comma : Bool)

/-- Steps over a value and the lists and objects around it, the innermost first. No two steps in a
row take nothing, so a bound of twice the number of characters is never reached. -/
def skipFrom : (bound : Nat) → Due → List Frame → List Char → Except Fault (List Char)
  | 0, _, _, _ => .error .endInValue
  | bound + 1, .value, frames, cs =>
    match skipBlanks cs with
    | [] => .error .endInValue
    | '[' :: rest => skipFrom bound (.closing false) (.list :: frames) rest
    | '\x7b' :: rest => skipFrom bound (.closing false) (.object :: frames) rest
    | 'n' :: rest => do skipFrom bound (.closing true) frames (← readWord ['u', 'l', 'l'] rest)
    | 't' :: rest => do skipFrom bound (.closing true) frames (← readWord ['r', 'u', 'e'] rest)
    | 'f' :: rest => do skipFrom bound (.closing true) frames (← readWord ['a', 'l', 's', 'e'] rest)
    | '"' :: rest => do skipFrom bound (.closing true) frames (← skipString rest)
    | '-' :: rest => do skipFrom bound (.closing true) frames (← skipNumber rest)
    | c :: rest =>
      if c.isDigit then do skipFrom bound (.closing true) frames (← skipNumber (c :: rest))
      else .error .valueExpected
  | _ + 1, .closing _, [], cs => .ok cs
  | bound + 1, .closing comma, frame :: frames, cs =>
    match skipBlanks cs with
    | [] => .error frame.endFault
    | c :: rest =>
      if comma && c = ',' then do skipFrom bound .value (frame :: frames) (← frame.skipKey rest)
      else if c = frame.closer then skipFrom bound (.closing true) frames rest
      else if comma then .error frame.commaFault
      else do skipFrom bound .value (frame :: frames) (← frame.skipKey (c :: rest))

/-- Steps over a value of any kind. -/
def skipValue (cs : List Char) : Except Fault (List Char) :=
  skipFrom (2 * cs.length + 2) .value [] cs

/-- The fault of a value that is not what is wanted. -/
def unwanted (wanted : String) (cs : List Char) : Fault :=
  let found : Except Fault Found := match cs with
    | 'n' :: rest => (readWord ['u', 'l', 'l'] rest).map fun _ => .null
    | 't' :: rest => (readWord ['r', 'u', 'e'] rest).map fun _ => .bool true
    | 'f' :: rest => (readWord ['a', 'l', 's', 'e'] rest).map fun _ => .bool false
    | '-' :: rest => (readNumber true rest).map (·.1)
    | '"' :: rest => (readString rest).map fun answer => .string answer.1
    | '[' :: _ => .ok .list
    | '\x7b' :: _ => .ok .object
    | c :: rest =>
      if c.isDigit then (readNumber false (c :: rest)).map (·.1) else .error .valueExpected
    | [] => .error .valueExpected
  match found with
  | .ok found => .invalidType found wanted
  | .error fault => fault

end Packrat.Json
