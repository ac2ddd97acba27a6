import TextGrammar.Json.Basic

/-!
Writing JSON values as text, on one line or indented.

Characters beyond ASCII are written as they are. Control characters are escaped,
by a letter where there is one.
-/

namespace TextGrammar.Json

def escape (c : Char) : String :=
  match c with
  | '"' => "\\\""
  | '\\' => "\\\\"
  | '\x08' => "\\b"
  | '\x0c' => "\\f"
  | '\n' => "\\n"
  | '\r' => "\\r"
  | '\t' => "\\t"
  | c =>
      if c < ' ' then
        let digits := Nat.toDigits 16 c.toNat
        "\\u" ++ String.ofList (List.replicate (4 - digits.length) '0' ++ digits)
      else c.toString

def quote (s : String) : String :=
  "\"" ++ String.join (s.toList.map escape) ++ "\""

mutual

/-- A value on one line, without blanks. -/
def compact : Json → String
  | .null => "null"
  | .bool true => "true"
  | .bool false => "false"
  | .natural n => toString n
  | .decimal text => text
  | .string s => quote s
  | .array items => "[" ++ ",".intercalate (compactItems items) ++ "]"
  | .object fields => "\x7b" ++ ",".intercalate (compactFields fields) ++ "\x7d"
  | .unreadable => "null"

def compactItems : List Json → List String
  | [] => []
  | item :: items => compact item :: compactItems items

def compactFields : List (String × Json) → List String
  | [] => []
  | (name, value) :: fields => (quote name ++ ":" ++ compact value) :: compactFields fields

end

/-- A line feed and the indentation of a depth. -/
def lineBreak (depth : Nat) : String :=
  "\n" ++ String.join (List.replicate depth "  ")

/-- Parts on lines of their own between two brackets at a depth. -/
def block (opening closing : String) (depth : Nat) (parts : List String) : String :=
  match parts with
  | [] => opening ++ closing
  | parts =>
      let inner := lineBreak (depth + 1)
      opening ++ inner ++ ("," ++ inner).intercalate parts ++ lineBreak depth ++ closing

mutual

/-- A value with its items and fields on lines of their own, when it starts at a
depth of indentation. -/
def indented (depth : Nat) : Json → String
  | .array items => block "[" "]" depth (indentedItems (depth + 1) items)
  | .object fields => block "\x7b" "\x7d" depth (indentedFields (depth + 1) fields)
  | value => compact value

def indentedItems (depth : Nat) : List Json → List String
  | [] => []
  | item :: items => indented depth item :: indentedItems depth items

def indentedFields (depth : Nat) : List (String × Json) → List String
  | [] => []
  | (name, value) :: fields =>
      (quote name ++ ": " ++ indented depth value) :: indentedFields depth fields

end

def pretty (value : Json) : String :=
  indented 0 value

end TextGrammar.Json
