import TextGrammar.Json.Basic

/-!
Reading JSON text.

The text is one value with nothing but blanks around it: spaces, tabs, line
feeds and carriage returns. Strings hold no control characters, numbers have no
leading zeros, and nothing follows a last comma.
-/

namespace TextGrammar.Json

/-- What is left of a text to read. -/
abbrev Source := List Char

def isBlank (c : Char) : Bool :=
  c = ' ' || c = '\t' || c = '\n' || c = '\r'

/-- The text without the blanks at its start. -/
def skipBlanks (source : Source) : Source :=
  source.dropWhile isBlank

/-! ### Strings -/

/-- A character of a string, or half of one that takes two escapes. -/
inductive StringPart where
  | char (c : Char)
  | surrogate (unit : Nat)
deriving DecidableEq, Repr

def hexDigit? (c : Char) : Option Nat :=
  if c.isDigit then some (c.toNat - '0'.toNat)
  else if 'a' ≤ c ∧ c ≤ 'f' then some (c.toNat - 'a'.toNat + 10)
  else if 'A' ≤ c ∧ c ≤ 'F' then some (c.toNat - 'A'.toNat + 10)
  else none

/-- What four hexadecimal digits stand for. -/
def unit? (a b c d : Char) : Option StringPart := do
  let high := 16 * (← hexDigit? a) + (← hexDigit? b)
  let low := 16 * (← hexDigit? c) + (← hexDigit? d)
  let unit := 256 * high + low
  return if 0xd800 ≤ unit ∧ unit ≤ 0xdfff then .surrogate unit else .char (Char.ofNat unit)

/-- What a backslash and this character stand for. -/
def simpleEscape? : Char → Option Char
  | '"' => some '"'
  | '\\' => some '\\'
  | '/' => some '/'
  | 'b' => some '\x08'
  | 'f' => some '\x0c'
  | 'n' => some '\n'
  | 'r' => some '\r'
  | 't' => some '\t'
  | _ => none

/-- The parts of a string up to its closing quote, and what follows. -/
def readParts : Source → Option (List StringPart × Source)
  | [] => none
  | '"' :: rest => some ([], rest)
  | '\\' :: 'u' :: a :: b :: c :: d :: rest => do
      let part ← unit? a b c d
      let (parts, rest) ← readParts rest
      return (part :: parts, rest)
  | '\\' :: c :: rest => do
      let c ← simpleEscape? c
      let (parts, rest) ← readParts rest
      return (.char c :: parts, rest)
  | '\\' :: [] => none
  | c :: rest =>
      if c < ' ' then none
      else do
        let (parts, rest) ← readParts rest
        return (.char c :: parts, rest)

/-- The characters of a string; the two halves of one have to be side by side. -/
def joinParts : List StringPart → Option (List Char)
  | [] => some []
  | .char c :: parts => (joinParts parts).map (c :: ·)
  | .surrogate high :: .surrogate low :: parts =>
      if high < 0xdc00 ∧ 0xdc00 ≤ low then
        let c := Char.ofNat (0x10000 + 0x400 * (high - 0xd800) + (low - 0xdc00))
        (joinParts parts).map (c :: ·)
      else none
  | .surrogate _ :: _ => none

/-- A string after its opening quote, and what follows; the string itself is
missing when its escapes denote no characters. -/
def readString (source : Source) : Option (Option String × Source) := do
  let (parts, rest) ← readParts source
  return ((joinParts parts).map String.ofList, rest)

/-! ### Numbers -/

/-- The digits at the start of a text and what follows, if there are any. -/
def readDigits (source : Source) : Option (List Char × Source) :=
  match source.span Char.isDigit with
  | ([], _) => none
  | (digits, rest) => some (digits, rest)

def readFraction : Source → Option (List Char × Source)
  | '.' :: rest => do
      let (digits, rest) ← readDigits rest
      return ('.' :: digits, rest)
  | source => some ([], source)

/-- The letter that starts an exponent, with its sign. -/
def exponentStart? : Source → Option (List Char × Source)
  | c :: '+' :: rest => if c = 'e' ∨ c = 'E' then some ([c, '+'], rest) else none
  | c :: '-' :: rest => if c = 'e' ∨ c = 'E' then some ([c, '-'], rest) else none
  | c :: rest => if c = 'e' ∨ c = 'E' then some ([c], rest) else none
  | [] => none

def readExponent (source : Source) : Option (List Char × Source) :=
  match exponentStart? source with
  | some (start, rest) => do
      let (digits, rest) ← readDigits rest
      return (start ++ digits, rest)
  | none => some ([], source)

def readNumber (source : Source) : Option (Json × Source) := do
  let (sign, rest) :=
    match source with
    | '-' :: rest => (['-'], rest)
    | rest => ([], rest)
  let (digits, rest) ← readDigits rest
  if digits.head? = some '0' ∧ digits ≠ ['0'] then none
  else
    let (fraction, rest) ← readFraction rest
    let (exponent, rest) ← readExponent rest
    if sign = [] ∧ fraction = [] ∧ exponent = [] then return (.natural (digitsValue digits), rest)
    else return (.decimal (String.ofList (sign ++ digits ++ fraction ++ exponent)), rest)

/-! ### Values -/

/-- The object of fields whose names were read; it is missing with any of them. -/
def ofFields (fields : List (Option String × Json)) : Json :=
  match fields.mapM fun (name, value) => name.map fun name => (name, value) with
  | some fields => .object fields
  | none => .unreadable

mutual

/-- The value at the start of a text, and what follows. Each step into or along
a value takes one of the steps that are left. -/
def readValue : Nat → Source → Option (Json × Source)
  | 0, _ => none
  | steps + 1, source =>
      match skipBlanks source with
      | 'n' :: 'u' :: 'l' :: 'l' :: rest => some (.null, rest)
      | 't' :: 'r' :: 'u' :: 'e' :: rest => some (.bool true, rest)
      | 'f' :: 'a' :: 'l' :: 's' :: 'e' :: rest => some (.bool false, rest)
      | '"' :: rest => do
          let (value, rest) ← readString rest
          return ((value.map Json.string).getD .unreadable, rest)
      | '[' :: rest =>
          match skipBlanks rest with
          | ']' :: rest => some (.array [], rest)
          | rest => do
              let (items, rest) ← readItems steps rest
              return (.array items, rest)
      | '{' :: rest =>
          match skipBlanks rest with
          | '}' :: rest => some (.object [], rest)
          | rest => do
              let (fields, rest) ← readFields steps rest
              return (ofFields fields, rest)
      | rest => readNumber rest

/-- The items of an array up to its closing bracket, and what follows. -/
def readItems : Nat → Source → Option (List Json × Source)
  | 0, _ => none
  | steps + 1, source => do
      let (item, rest) ← readValue steps source
      match skipBlanks rest with
      | ']' :: rest => return ([item], rest)
      | ',' :: rest =>
          let (items, rest) ← readItems steps rest
          return (item :: items, rest)
      | _ => none

/-- The fields of an object up to its closing brace, and what follows. -/
def readFields : Nat → Source → Option (List (Option String × Json) × Source)
  | 0, _ => none
  | steps + 1, source =>
      match skipBlanks source with
      | '"' :: rest => do
          let (name, rest) ← readString rest
          match skipBlanks rest with
          | ':' :: rest =>
              let (value, rest) ← readValue steps rest
              match skipBlanks rest with
              | '}' :: rest => return ([(name, value)], rest)
              | ',' :: rest =>
                  let (fields, rest) ← readFields steps rest
                  return ((name, value) :: fields, rest)
              | _ => none
          | _ => none
      | _ => none

end

/-- The value that a text is. No path into a value has more than two steps for
every character. -/
def read (text : String) : Option Json := do
  let source := text.toList
  let (value, rest) ← readValue (2 * source.length + 1) source
  if skipBlanks rest = [] then return value else none

end TextGrammar.Json
