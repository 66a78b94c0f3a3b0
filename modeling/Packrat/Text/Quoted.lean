import Packrat.Text.Classes
import Packrat.Text.GraphemeExtend
import Packrat.Text.Printable

/-!
# Quoted text

Text in messages stands between double quotes. Inside, every character that would not show as itself is
written as an escape, so that a quoted text is one unbroken run of visible characters. A string in JSON text
stands between double quotes as well; there, quotes, backslashes and control characters are escaped, the
common controls by a letter and the others by their code, and everything else is written as it is.
-/

namespace Packrat

namespace Quoted

/-- A code point in hexadecimal between braces. -/
def codeEscape (c : Char) : List Char :=
  ['\\', 'u', '\x7b'] ++ Nat.toDigits 16 c.toNat ++ ['\x7d']

/-- Whether the character shows as itself. -/
def isPlain (c : Char) : Bool :=
  if c.toNat < 0x7f then 0x20 ≤ c.toNat
  else !isGraphemeExtend c && !isIgnorable c && !isUnprintable c

/-- How a character is written between the quotes. -/
def writeChar (c : Char) : List Char :=
  if c = '\x00' then ['\\', '0']
  else if c = '\t' then ['\\', 't']
  else if c = '\r' then ['\\', 'r']
  else if c = '\n' then ['\\', 'n']
  else if c = '"' then ['\\', '"']
  else if c = '\\' then ['\\', '\\']
  else if isPlain c then [c]
  else codeEscape c

end Quoted

/-- The text between double quotes, with escapes. -/
def quoted (s : String) : String :=
  String.ofList ('"' :: s.toList.flatMap Quoted.writeChar ++ ['"'])

namespace JsonString

/-- The code of a control character in four hexadecimal digits. -/
def controlEscape (c : Char) : List Char :=
  let digits := Nat.toDigits 16 c.toNat
  ['\\', 'u'] ++ List.replicate (4 - digits.length) '0' ++ digits

/-- How a character is written between the quotes. -/
def writeChar (c : Char) : List Char :=
  if c = '"' then ['\\', '"']
  else if c = '\\' then ['\\', '\\']
  else if c = '\x08' then ['\\', 'b']
  else if c = '\x0c' then ['\\', 'f']
  else if c = '\n' then ['\\', 'n']
  else if c = '\r' then ['\\', 'r']
  else if c = '\t' then ['\\', 't']
  else if c.toNat < 0x20 then controlEscape c
  else [c]

end JsonString

/-- The text as a JSON string. -/
def jsonString (s : String) : String :=
  String.ofList ('"' :: s.toList.flatMap JsonString.writeChar ++ ['"'])

end Packrat
