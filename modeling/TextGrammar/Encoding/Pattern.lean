import TextGrammar.Json.Basic
import TextGrammar.Pattern.Compile

/-!
Patterns and their parts as JSON.

A kind with contents is an object with one field, named after the kind; a kind
without is the name alone. What is left out of an object has a default: no
alternate, no quantifier, no minimum and no maximum.
-/

namespace TextGrammar

namespace CharClass

def name : CharClass → String
  | .literal _ => "Literal"
  | .range _ _ => "Range"
  | .dot => "Dot"
  | .whitespace => "Whitespace"
  | .notWhitespace => "NotWhitespace"
  | .word => "Word"
  | .notWord => "NotWord"
  | .digit => "Digit"
  | .notDigit => "NotDigit"

end CharClass

namespace Kind

def name : Kind → String
  | .group _ _ => "Group"
  | .set _ _ => "CharacterSet"
  | .single chars => chars.name
  | .wordBoundary => "WordBoundary"
  | .reference _ => "Value"

/-- The name of a kind, with the number of a group. -/
def label : Kind → String
  | .group number _ => "Group " ++ toString number
  | kind => kind.name

/-- The kind without contents that has a name. -/
def ofName? : String → Option Kind
  | "Dot" => some (.single .dot)
  | "WordBoundary" => some .wordBoundary
  | "Whitespace" => some (.single .whitespace)
  | "NotWhitespace" => some (.single .notWhitespace)
  | "Word" => some (.single .word)
  | "NotWord" => some (.single .notWord)
  | "Digit" => some (.single .digit)
  | "NotDigit" => some (.single .notDigit)
  | _ => none

end Kind

/-! ### Writing -/

/-- A character is a string of its own. -/
def Json.ofChar (c : Char) : Json :=
  .string c.toString

/-- A number, or null for none. -/
def Json.ofBound : Option Nat → Json
  | some n => .natural n
  | none => .null

def Quantifier.toJson (q : Quantifier) : Json :=
  .object [("min", .natural q.min), ("max", .ofBound q.max)]

def CharClass.toJson : CharClass → Json
  | .literal c => .object [("Literal", .ofChar c)]
  | .range low high => .object [("Range", .object [("from", .ofChar low), ("to", .ofChar high)])]
  | chars => .string chars.name

mutual

def Kind.toJson : Kind → Json
  | .group number body =>
      .object [("Group", .object [("group", .natural number), ("body", body.toJson)])]
  | .set items negated =>
      .object [("CharacterSet",
        .object [("items", .array (Node.toJsonAll items)), ("negated", .bool negated)])]
  | .single chars => chars.toJson
  | .wordBoundary => .string "WordBoundary"
  | .reference name => .object [("Value", .string name)]

def Node.toJson : Node → Json
  | ⟨kind, none⟩ => .object [("kind", kind.toJson)]
  | ⟨kind, some quantifier⟩ =>
      .object [("kind", kind.toJson), ("quantifier", quantifier.toJson)]

def Node.toJsonAll : List Node → List Json
  | [] => []
  | node :: nodes => node.toJson :: Node.toJsonAll nodes

def Sequence.toJson : Sequence → Json
  | .only nodes => .object [("nodes", .array (Node.toJsonAll nodes))]
  | .either nodes alternate =>
      .object [("nodes", .array (Node.toJsonAll nodes)), ("alternate", alternate.toJson)]

end

def Pattern.toJson (pattern : Pattern) : Json :=
  .object [("source", .string pattern.source), ("root", pattern.root.toJson),
    ("groups", .natural pattern.groups)]

/-! ### Reading -/

def Quantifier.ofJson? : Json → Option Quantifier
  | .object fields => do
      let min ← Json.optional? "min" Json.natural? 0 fields
      let max ← Json.optional? "max" (Json.nullable? Json.natural?) none fields
      return ⟨min, max⟩
  | _ => none

/-- The range that the fields of an object describe. -/
def CharClass.rangeOfJson? : Json → Option CharClass
  | .object fields => do
      let low ← Json.required? "from" Json.char? fields
      let high ← Json.required? "to" Json.char? fields
      return .range low high
  | _ => none

mutual

def Kind.ofJson? : Json → Option Kind
  | .string name => Kind.ofName? name
  | .object [("Group", .object fields)] =>
      match Json.required? "group" Json.natural? fields, _body : Json.field "body" fields with
      | some number, .present body => (Sequence.ofJson? body).map (.group number)
      | _, _ => none
  | .object [("CharacterSet", .object fields)] =>
      match Json.required? "negated" Json.bool? fields, _items : Json.field "items" fields with
      | some negated, .present (.array items) =>
          (Node.ofJsonAll? items).map fun items => .set items negated
      | _, _ => none
  | .object [("Literal", value)] => value.char?.map .literal
  | .object [("Range", value)] => (CharClass.rangeOfJson? value).map .single
  | .object [("Value", value)] => value.string?.map .reference
  | .object [(name, .null)] => Kind.ofName? name
  | _ => none
termination_by json => sizeOf json
decreasing_by
  all_goals
    try have := Json.sizeOf_lt_of_field _body
    try have := Json.sizeOf_lt_of_field _items
    simp_all
    try omega

def Node.ofJson? : Json → Option Node
  | .object fields =>
      match _kind : Json.field "kind" fields with
      | .present kind => do
          let kind ← Kind.ofJson? kind
          let quantifier ←
            Json.optional? "quantifier" (Json.nullable? Quantifier.ofJson?) none fields
          return ⟨kind, quantifier⟩
      | _ => none
  | _ => none
termination_by json => sizeOf json
decreasing_by
  have := Json.sizeOf_lt_of_field _kind
  simp only [Json.object.sizeOf_spec]
  omega

def Node.ofJsonAll? : List Json → Option (List Node)
  | [] => some []
  | json :: rest => do
      let node ← Node.ofJson? json
      let nodes ← Node.ofJsonAll? rest
      return node :: nodes
termination_by items => sizeOf items

def Sequence.ofJson? : Json → Option Sequence
  | .object fields =>
      match _nodes : Json.field "nodes" fields with
      | .present (.array items) => do
          let nodes ← Node.ofJsonAll? items
          match _alternate : Json.field "alternate" fields with
          | .absent => return .only nodes
          | .present .null => return .only nodes
          | .present alternate => return .either nodes (← Sequence.ofJson? alternate)
          | .repeated => none
      | _ => none
  | _ => none
termination_by json => sizeOf json
decreasing_by
  all_goals
    try have := Json.sizeOf_lt_of_field _nodes
    try have := Json.sizeOf_lt_of_field _alternate
    simp_all
    try omega

end

def Pattern.ofJson? : Json → Option Pattern
  | .object fields => do
      let source ← Json.required? "source" Json.string? fields
      let root ← Json.required? "root" Sequence.ofJson? fields
      let groups ← Json.required? "groups" Json.natural? fields
      return { source, root, groups }
  | _ => none

end TextGrammar
