import TextGrammar.Json.Basic
import TextGrammar.Tree.Basic

/-!
Parse trees as JSON.

The name at a node is its type, the offset of a token its index, and the children
of a production are its nodes. What a node does not have is left out.
-/

namespace TextGrammar.ParseTree

/-- A field that is left out when there is nothing to put in it. -/
def optionalField {α : Type} (name : String) (write : α → Json) :
    Option α → List (String × Json)
  | some value => [(name, write value)]
  | none => []

/-- The children of a node, left out when there are none. -/
def childrenField : List Json → List (String × Json)
  | [] => []
  | children => [("nodes", .array children)]

mutual

def toJson : ParseTree → Json
  | ⟨label, children, value, offset⟩ =>
      .object (("type", .string label) :: childrenField (toJsonAll children) ++
        optionalField "value" .string value ++ optionalField "index" .natural offset)

def toJsonAll : List ParseTree → List Json
  | [] => []
  | tree :: trees => toJson tree :: toJsonAll trees

end

mutual

def ofJson? : Json → Option ParseTree
  | .object fields => do
      let label ← Json.required? "type" Json.string? fields
      let value ← Json.optional? "value" (Json.nullable? Json.string?) none fields
      let offset ← Json.optional? "index" (Json.nullable? Json.natural?) none fields
      match _nodes : Json.field "nodes" fields with
      | .absent => return { label, value, offset }
      | .present (.array items) =>
          return { label, children := ← ofJsonAll? items, value, offset }
      | _ => none
  | _ => none
termination_by json => sizeOf json
decreasing_by
  have := Json.sizeOf_lt_of_field _nodes
  simp only [Json.array.sizeOf_spec] at this
  simp only [Json.object.sizeOf_spec]
  omega

def ofJsonAll? : List Json → Option (List ParseTree)
  | [] => some []
  | json :: rest => do
      let tree ← ofJson? json
      let trees ← ofJsonAll? rest
      return tree :: trees
termination_by items => sizeOf items

end

end TextGrammar.ParseTree
