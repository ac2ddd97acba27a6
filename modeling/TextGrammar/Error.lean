import TextGrammar.Text

/-!
What can go wrong with a grammar or an input, and how it is told.

An error has a one-line message and a diagnostic: advice, the places it points
at, and the source that those places lie in when it is not the input itself.
-/

namespace TextGrammar

/-- Everything that compiling a grammar or applying it can fail with. -/
inductive Error where
  /-- A pattern or an expression is malformed at an offset of its source. -/
  | invalidExpression (message expression : String) (offset : Nat)
  /-- A rule refers to a name that no rule declares. -/
  | unknownIdentifier (name rule : String)
  /-- Two rules declare one name. -/
  | duplicateName (name : String)
  /-- No token starts with the character at an offset. -/
  | unexpectedCharacter (found : Char) (offset : Nat)
  /-- The input does not belong to the grammar; the names are what would have
  let it go on at the furthest offset where a token failed. -/
  | parseError (expected : List String) (offset : Nat)
  /-- Too many productions inside one another. -/
  | recursionLimit (production : String) (offset : Nat)
deriving DecidableEq, Repr

/-- A character as it is written in a message: printable ASCII as it is, the
rest by an escape. -/
def escapeChar (c : Char) : String :=
  match c with
  | '\t' => "\\t"
  | '\r' => "\\r"
  | '\n' => "\\n"
  | '\'' => "\\'"
  | '"' => "\\\""
  | '\\' => "\\\\"
  | c =>
      if ' ' ≤ c ∧ c ≤ '~' then c.toString
      else "\\u\x7b" ++ String.ofList (Nat.toDigits 16 c.toNat) ++ "\x7d"

/-- How many alternatives there are decides how they are introduced. -/
def expectation : List String → String
  | [] => ""
  | [name] => s!", expected {name}"
  | names => ", expected one of " ++ ", ".intercalate names

namespace Error

def message : Error → String
  | .invalidExpression message _ _ => s!"invalid expression: {message}"
  | .unknownIdentifier name rule => s!"unknown identifier '{name}' in rule '{rule}'"
  | .duplicateName name => s!"name '{name}' is declared more than once"
  | .unexpectedCharacter found _ => "unexpected character '" ++ escapeChar found ++ "'"
  | .parseError expected offset =>
      s!"failed to parse input at offset {offset}" ++ expectation expected
  | .recursionLimit production _ => s!"recursion limit reached in '{production}'"

/-- Advice on how to mend the error. -/
def help? : Error → Option String
  | .unknownIdentifier name _ => some s!"declare '{name}' as a token or a production"
  | .duplicateName _ => some "token and production names must be unique"
  | .recursionLimit _ _ => some "raise `recursion_limit` in grammar options"
  | _ => none

/-- The places that the error points at, each with a remark. -/
def labels : Error → List (Located String)
  | .invalidExpression message _ offset => [⟨message, offset⟩]
  | .unexpectedCharacter _ offset => [⟨"no rule matches here", offset⟩]
  | .parseError _ offset => [⟨"parsing stopped here", offset⟩]
  | .recursionLimit _ offset => [⟨"entered here", offset⟩]
  | _ => []

/-- The source that the places lie in, if the error brings it along. -/
def source? : Error → Option String
  | .invalidExpression _ expression _ => some expression
  | _ => none

end Error

end TextGrammar
