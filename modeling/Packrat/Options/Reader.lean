import Packrat.Options.Basic
import Packrat.Options.Json

/-!
# Reading options

Options are given as a JSON object with the fields `prefix`, `reporter` and `warn_duplicate_keys`,
or as a list of their values in this order. What is not given has its default, other fields are
stepped over, and no field may be given twice.
-/

namespace Packrat.Options

open Json

/-- The names of the fields. -/
inductive Field where
  /-- Whether a match may leave input behind. -/
  | allowRest
  /-- Which cause is reported. -/
  | reporter
  /-- Whether overwritten keys are noted. -/
  | warn
  deriving DecidableEq, Repr

/-- The name under which a field is given. -/
def Field.name : Field → String
  | .allowRest => "prefix"
  | .reporter => "reporter"
  | .warn => "warn_duplicate_keys"

/-- The fields in the order in which a list gives them. -/
def Field.all : List Field := [.allowRest, .reporter, .warn]

/-- The field with a name. -/
def Field.ofName? (name : String) : Option Field := Field.all.find? (·.name == name)

/-- Reads a truth value. -/
def readBool (cs : List Char) : Except Fault (Bool × List Char) :=
  match skipBlanks cs with
  | [] => .error .endInValue
  | 't' :: rest => (readWord ['r', 'u', 'e'] rest).map fun rest => (true, rest)
  | 'f' :: rest => (readWord ['a', 'l', 's', 'e'] rest).map fun rest => (false, rest)
  | cs => .error (unwanted "a boolean" cs)

/-- The kind of reporter with a name. -/
def kindOfName (name : String) : Except Fault ReporterKind :=
  match ReporterKind.ofName? name with
  | some kind => .ok kind
  | none => .error (.unknownVariant name (ReporterKind.all.map (·.name)))

/-- Reads the colon behind a key. -/
def readColon (cs : List Char) : Except Fault (List Char) :=
  match skipBlanks cs with
  | ':' :: rest => .ok rest
  | [] => .error .endInObject
  | _ => .error .colonExpected

/-- Reads the word null. -/
def readNull (cs : List Char) : Except Fault (List Char) :=
  match skipBlanks cs with
  | [] => .error .endInValue
  | 'n' :: rest => readWord ['u', 'l', 'l'] rest
  | cs => .error (unwanted "unit" cs)

/-- Reads the one entry of an object that names a kind of reporter, behind the opening brace. -/
def readKindObject (cs : List Char) : Except Fault (ReporterKind × List Char) :=
  match skipBlanks cs with
  | [] => .error .endInValue
  | '"' :: rest => do
    let (name, rest) ← readString rest
    let kind ← kindOfName name
    let rest ← readColon rest
    match skipBlanks (← readNull rest) with
    | '\x7d' :: rest => return (kind, rest)
    | [] => .error .endInObject
    | _ => .error .valueExpected
  | cs => .error (unwanted "variant identifier" cs)

/-- Reads a kind of reporter: its name, or an object whose one key is its name. -/
def readKind (cs : List Char) : Except Fault (ReporterKind × List Char) :=
  match skipBlanks cs with
  | [] => .error .endInValue
  | '\x7b' :: rest => readKindObject rest
  | '"' :: rest => do
    let (name, rest) ← readString rest
    return (← kindOfName name, rest)
  | _ => .error .valueExpected

/-- Reads the value of a field into the options. -/
def readField (options : Options) (field : Field) (cs : List Char) :
    Except Fault (Options × List Char) :=
  match field with
  | .allowRest => (readBool cs).map fun (value, rest) => ({ options with allowRest := value }, rest)
  | .reporter => (readKind cs).map fun (value, rest) => ({ options with reporter := value }, rest)
  | .warn => (readBool cs).map fun (value, rest) => ({ options with warn := value }, rest)

/-- Reads the values of the fields in a list, from behind the opening bracket. -/
def readItems (options : Options) (isFirst : Bool) : List Field → List Char →
    Except Fault (Options × List Char)
  | [], cs =>
    match skipBlanks cs with
    | ']' :: rest => .ok (options, rest)
    | ',' :: rest =>
      match skipBlanks rest with
      | ']' :: _ => .error .trailingComma
      | _ => .error .trailingCharacters
    | [] => .error .endInList
    | _ => .error .trailingCharacters
  | field :: fields, cs =>
    match skipBlanks cs with
    | [] => .error .endInList
    | ']' :: rest => .ok (options, rest)
    | c :: rest =>
      if isFirst then do
        let (options, rest) ← readField options field (c :: rest)
        readItems options false fields rest
      else if c = ',' then
        match skipBlanks rest with
        | [] => .error .endInValue
        | ']' :: _ => .error .trailingComma
        | rest => do
          let (options, rest) ← readField options field rest
          readItems options false fields rest
      else .error .listCommaExpected

/-- Reads one entry of the object from behind the opening quote of its key; `seen` are the fields
given so far. -/
def readEntry (options : Options) (seen : List Field) (cs : List Char) :
    Except Fault ((Options × List Field) × List Char) := do
  let (name, rest) ← readString cs
  match Field.ofName? name with
  | some field =>
    if seen.contains field then .error (.duplicateField name)
    else do
      let (options, rest) ← readField options field (← readColon rest)
      return ((options, field :: seen), rest)
  | none => return ((options, seen), ← skipValue (← readColon rest))

/-- Reads the entries of an object, from behind the opening brace. Every step takes at least one
character, so a bound of the number of characters is never reached. -/
def readEntries : (bound : Nat) → Options → (seen : List Field) → (isFirst : Bool) → List Char →
    Except Fault (Options × List Char)
  | 0, _, _, _, _ => .error .endInObject
  | bound + 1, options, seen, isFirst, cs =>
    match skipBlanks cs with
    | [] => .error .endInObject
    | '\x7d' :: rest => .ok (options, rest)
    | c :: rest =>
      if isFirst then
        if c = '"' then do
          let ((options, seen), rest) ← readEntry options seen rest
          readEntries bound options seen false rest
        else .error .keyNotString
      else if c = ',' then
        match skipBlanks rest with
        | '"' :: rest => do
          let ((options, seen), rest) ← readEntry options seen rest
          readEntries bound options seen false rest
        | '\x7d' :: _ => .error .trailingComma
        | [] => .error .endInValue
        | _ => .error .keyNotString
      else .error .objectCommaExpected

/-- Reads options from a text that holds nothing else. -/
def read (s : String) : Except Fault Options := do
  let cs := s.toList
  let (options, rest) ← match skipBlanks cs with
    | [] => .error .endInValue
    | '[' :: rest => readItems {} true Field.all rest
    | '\x7b' :: rest => readEntries (cs.length + 1) {} [] true rest
    | cs => .error (unwanted "struct ParseOptions" cs)
  if (skipBlanks rest).isEmpty then return options else .error .trailingCharacters

/-- The options that a text holds. -/
def ofText (s : String) : Except Failure Options :=
  (read s).mapError fun fault => .config ("Failed to parse config: " ++ fault.message)

/-- The options that the text of a file holds, or the reason why there is none. -/
def ofFile (contents : Except String String) : Except Failure Options :=
  match contents with
  | .error reason => .error (.config ("Failed to open config file: " ++ reason))
  | .ok s =>
    (read s).mapError fun fault => .config ("Failed to parse config file: " ++ fault.message)

end Packrat.Options
