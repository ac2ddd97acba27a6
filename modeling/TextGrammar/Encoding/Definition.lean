import TextGrammar.Grammar.Definition
import TextGrammar.Json.Reader

/-!
Grammar definitions as JSON.

Everything but the start production may be left out of a definition, and every
option out of its options.
-/

namespace TextGrammar

def Rule.toJson (rule : Rule) : Json :=
  .object [("name", .string rule.name), ("expression", .string rule.expression)]

def Rule.ofJson? : Json → Option Rule
  | .object fields => do
      let name ← Json.required? "name" Json.string? fields
      let expression ← Json.required? "expression" Json.string? fields
      return { name, expression }
  | _ => none

def Options.toJson (options : Options) : Json :=
  .object [("skip_whitespace", .bool options.skipWhitespace),
    ("complete", .bool options.complete), ("memoize", .bool options.memoize),
    ("recursion_limit", .natural options.recursionLimit)]

def Options.ofJson? : Json → Option Options
  | .object fields => do
      let absent : Options := {}
      let skipWhitespace ←
        Json.optional? "skip_whitespace" Json.bool? absent.skipWhitespace fields
      let complete ← Json.optional? "complete" Json.bool? absent.complete fields
      let memoize ← Json.optional? "memoize" Json.bool? absent.memoize fields
      let recursionLimit ←
        Json.optional? "recursion_limit" Json.natural? absent.recursionLimit fields
      return { skipWhitespace, complete, memoize, recursionLimit }
  | _ => none

namespace Definition

def toJson (definition : Definition) : Json :=
  .object [("start", .string definition.start),
    ("tokens", .array (definition.tokens.map Rule.toJson)),
    ("productions", .array (definition.productions.map Rule.toJson)),
    ("options", definition.options.toJson)]

def ofJson? : Json → Option Definition
  | .object fields => do
      let start ← Json.required? "start" Json.string? fields
      let tokens ← Json.optional? "tokens" (Json.list? Rule.ofJson?) [] fields
      let productions ← Json.optional? "productions" (Json.list? Rule.ofJson?) [] fields
      let options ← Json.optional? "options" Options.ofJson? {} fields
      return { start, tokens, productions, options }
  | _ => none

def ofText? (text : String) : Option Definition := do
  ofJson? (← Json.read text)

end Definition

end TextGrammar
