import TextGrammar.Error
import TextGrammar.Json.Basic

/-!
Errors as JSON: an object with one field, named after the kind of the error,
that holds what the error is about.
-/

namespace TextGrammar.Error

def name : Error → String
  | .invalidExpression _ _ _ => "InvalidExpression"
  | .unknownIdentifier _ _ => "UnknownIdentifier"
  | .duplicateName _ => "DuplicateName"
  | .unexpectedCharacter _ _ => "UnexpectedCharacter"
  | .parseError _ _ => "ParseError"
  | .recursionLimit _ _ => "RecursionLimit"

def details : Error → Json
  | .invalidExpression message expression offset =>
      .object [("message", .string message), ("expression", .string expression),
        ("at", .natural offset)]
  | .unknownIdentifier name rule => .object [("name", .string name), ("rule", .string rule)]
  | .duplicateName name => .object [("name", .string name)]
  | .unexpectedCharacter found offset =>
      .object [("found", .string found.toString), ("at", .natural offset)]
  | .parseError expected offset =>
      .object [("expected", .array (expected.map .string)), ("at", .natural offset)]
  | .recursionLimit production offset =>
      .object [("production", .string production), ("at", .natural offset)]

def toJson (error : Error) : Json :=
  .object [(error.name, error.details)]

/-- The error of a kind that the fields of an object describe. -/
def ofDetails? (name : String) (fields : List (String × Json)) : Option Error :=
  match name with
  | "InvalidExpression" => do
      let message ← Json.required? "message" Json.string? fields
      let expression ← Json.required? "expression" Json.string? fields
      return .invalidExpression message expression (← Json.required? "at" Json.natural? fields)
  | "UnknownIdentifier" => do
      let name ← Json.required? "name" Json.string? fields
      return .unknownIdentifier name (← Json.required? "rule" Json.string? fields)
  | "DuplicateName" => return .duplicateName (← Json.required? "name" Json.string? fields)
  | "UnexpectedCharacter" => do
      let found ← Json.required? "found" Json.char? fields
      return .unexpectedCharacter found (← Json.required? "at" Json.natural? fields)
  | "ParseError" => do
      let expected ← Json.required? "expected" (Json.list? Json.string?) fields
      return .parseError expected (← Json.required? "at" Json.natural? fields)
  | "RecursionLimit" => do
      let production ← Json.required? "production" Json.string? fields
      return .recursionLimit production (← Json.required? "at" Json.natural? fields)
  | _ => none

def ofJson? : Json → Option Error
  | .object [(name, .object fields)] => ofDetails? name fields
  | _ => none

end TextGrammar.Error
