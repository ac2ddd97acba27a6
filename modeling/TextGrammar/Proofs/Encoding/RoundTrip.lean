import TextGrammar.Encoding.Definition
import TextGrammar.Encoding.Error
import TextGrammar.Encoding.Pattern
import TextGrammar.Encoding.Tree
import TextGrammar.Proofs.Json.Fields

/-!
Data and their JSON form.

Nothing is lost in JSON, although much of it is left out there or is written in more
than one way: patterns and their parts, parse trees, definitions and errors are read
back as they were as long as their numbers have 64 bits (`Encoding.round_trip`).
-/

namespace TextGrammar

/-! ### Numbers of 64 bits -/

/-- The bounds are numbers of 64 bits. They need not be in order. -/
structure Quantifier.Fits (quantifier : Quantifier) : Prop where
  min : quantifier.min ≤ maxNumber
  max : ∀ max, quantifier.max = some max → max ≤ maxNumber

mutual

/-- The numbers of groups and the bounds in a kind have 64 bits. -/
def Kind.Fits : Kind → Prop
  | .group number body => number ≤ maxNumber ∧ body.Fits
  | .set items _ => Node.AllFit items
  | .single _ | .wordBoundary | .reference _ => True

def Node.Fits : Node → Prop
  | ⟨kind, quantifier⟩ => kind.Fits ∧ ∀ q, quantifier = some q → q.Fits

def Node.AllFit : List Node → Prop
  | [] => True
  | node :: nodes => node.Fits ∧ Node.AllFit nodes

def Sequence.Fits : Sequence → Prop
  | .only nodes => Node.AllFit nodes
  | .either nodes alternate => Node.AllFit nodes ∧ alternate.Fits

end

structure Pattern.Fits (pattern : Pattern) : Prop where
  root : pattern.root.Fits
  groups : pattern.groups ≤ maxNumber

mutual

/-- The offsets in a tree have 64 bits. -/
def ParseTree.Fits : ParseTree → Prop
  | ⟨_, children, _, offset⟩ =>
      ParseTree.AllFit children ∧ ∀ n, offset = some n → n ≤ maxNumber

def ParseTree.AllFit : List ParseTree → Prop
  | [] => True
  | tree :: trees => tree.Fits ∧ ParseTree.AllFit trees

end

def Options.Fits (options : Options) : Prop :=
  options.recursionLimit ≤ maxNumber

def Definition.Fits (definition : Definition) : Prop :=
  definition.options.Fits

/-- The offset of an error has 64 bits. -/
def Error.Fits : Error → Prop
  | .invalidExpression _ _ offset | .unexpectedCharacter _ offset | .parseError _ offset
  | .recursionLimit _ offset => offset ≤ maxNumber
  | .unknownIdentifier _ _ | .duplicateName _ => True

/-! ### Patterns and their parts -/

/-- A character is read from the text of one character that it is written as. -/
@[simp]
theorem Json.char?_ofChar (c : Char) : (Json.ofChar c).char? = some c := by
  simp [Json.ofChar]

/-- A bound that fits, or none, is read from what it is written as. -/
theorem Json.nullable?_ofBound {bound : Option Nat} (fits : ∀ n, bound = some n → n ≤ maxNumber) :
    Json.nullable? Json.natural? (Json.ofBound bound) = some bound := by
  cases bound with
  | none => rfl
  | some n => simp [Json.ofBound, Json.nullable?, Json.natural?_natural (fits n rfl)]

/-- A quantifier is read from what it is written as. -/
theorem Quantifier.ofJson?_toJson {quantifier : Quantifier} (fits : quantifier.Fits) :
    Quantifier.ofJson? quantifier.toJson = some quantifier := by
  simp [Quantifier.toJson, Quantifier.ofJson?, Json.natural?_natural fits.min,
    Json.nullable?_ofBound fits.max]

/-- A class is read as a kind: a string if there is nothing to say of it but its name. -/
theorem Kind.ofJson?_single (chars : CharClass) :
    Kind.ofJson? chars.toJson = some (.single chars) := by
  cases chars with
  | literal c => simp [CharClass.toJson, Kind.ofJson?, Kind.literal]
  | range low high => simp [CharClass.toJson, Kind.ofJson?, CharClass.rangeOfJson?]
  | _ => simp [CharClass.toJson, Kind.ofJson?, Kind.ofName?, CharClass.name]

/-! The readers call one another on what they find in an object; an equation for each
way in which that goes on. -/

section Equations

variable {fields : List (String × Json)} {json : Json} {items : List Json}

/-- A group is read from an object with a number and a body. -/
theorem Kind.ofJson?_group {number : Nat}
    (group : Json.required? "group" Json.natural? fields = some number)
    (body : Json.field "body" fields = .present json) :
    Kind.ofJson? (.object [("Group", .object fields)]) =
      (Sequence.ofJson? json).map (.group number) := by
  rw [Kind.ofJson?]
  split
  · rename_i group' body'
    cases group.symm.trans group'
    cases body.symm.trans body'
    rfl
  · rename_i other
    exact absurd body (other _ _ group)

/-- A set is read from an object with a sign and items. -/
theorem Kind.ofJson?_set {negated : Bool}
    (sign : Json.required? "negated" Json.bool? fields = some negated)
    (members : Json.field "items" fields = .present (.array items)) :
    Kind.ofJson? (.object [("CharacterSet", .object fields)]) =
      (Node.ofJsonAll? items).map (.set · negated) := by
  rw [Kind.ofJson?]
  split
  · rename_i sign' members'
    cases sign.symm.trans sign'
    cases members.symm.trans members'
    rfl
  · rename_i other
    exact absurd members (other _ _ sign)

/-- A node is read from an object that has a kind, with a quantifier or without. -/
theorem Node.ofJson?_object (found : Json.field "kind" fields = .present json) :
    Node.ofJson? (.object fields) = do
      let kind ← Kind.ofJson? json
      let quantifier ← Json.optional? "quantifier" (Json.nullable? Quantifier.ofJson?) none fields
      return ⟨kind, quantifier⟩ := by
  rw [Node.ofJson?]
  split
  · rename_i found'
    cases found.symm.trans found'
    rfl
  · rename_i other
    exact absurd found (other _)

/-- Without an alternate there are only the nodes. -/
theorem Sequence.ofJson?_only (nodes : Json.field "nodes" fields = .present (.array items))
    (missing : Json.field "alternate" fields = .absent) :
    Sequence.ofJson? (.object fields) = (Node.ofJsonAll? items).map .only := by
  rw [Sequence.ofJson?]
  split
  · rename_i nodes'
    cases nodes.symm.trans nodes'
    split
    · exact (Option.map_eq_bind ..).symm
    · rename_i found
      cases missing.symm.trans found
    · rename_i found
      cases missing.symm.trans found
    · rename_i found
      cases missing.symm.trans found
  · rename_i other
    exact absurd nodes (other _)

/-- With an alternate there are the nodes and what stands for them otherwise. -/
theorem Sequence.ofJson?_either (nodes : Json.field "nodes" fields = .present (.array items))
    (alternate : Json.field "alternate" fields = .present json) (notNull : json ≠ .null) :
    Sequence.ofJson? (.object fields) = do
      return .either (← Node.ofJsonAll? items) (← Sequence.ofJson? json) := by
  rw [Sequence.ofJson?]
  split
  · rename_i nodes'
    cases nodes.symm.trans nodes'
    split
    · rename_i missing
      cases alternate.symm.trans missing
    · rename_i null
      cases alternate.symm.trans null
      exact absurd rfl notNull
    · rename_i alternate'
      cases alternate.symm.trans alternate'
      rfl
    · rename_i repeated
      cases alternate.symm.trans repeated
  · rename_i other
    exact absurd nodes (other _)

end Equations

/-- A sequence is never written as nothing, so that a missing alternate differs from each. -/
theorem Sequence.toJson_ne_null (sequence : Sequence) : sequence.toJson ≠ .null := by
  cases sequence <;> simp [Sequence.toJson]

/-- A quantifier is never written as nothing, so that a missing one differs from each. -/
theorem Quantifier.toJson_ne_null (quantifier : Quantifier) : quantifier.toJson ≠ .null :=
  nofun

mutual

/-- A kind is read as it was: no two kinds have the same name. -/
theorem Kind.ofJson?_toJson :
    (kind : Kind) → kind.Fits → Kind.ofJson? kind.toJson = some kind
  | .group number body, ⟨small, fits⟩ => by
      let fields := [("group", Json.natural number), ("body", body.toJson)]
      have group : Json.required? "group" Json.natural? fields = some number := by
        simpa [fields] using Json.natural?_natural small
      have inside : Json.field "body" fields = .present body.toJson := by simp [fields]
      rw [Kind.toJson, Kind.ofJson?_group group inside, Sequence.ofJson?_toJson body fits]
      rfl
  | .set items negated, fits => by
      let fields := [("items", Json.array (Node.toJsonAll items)), ("negated", .bool negated)]
      have sign : Json.required? "negated" Json.bool? fields = some negated := by simp [fields]
      have members : Json.field "items" fields = .present (.array (Node.toJsonAll items)) := by
        simp [fields]
      rw [Kind.toJson, Kind.ofJson?_set sign members, Node.ofJsonAll?_toJsonAll items fits]
      rfl
  | .single chars, _ => by rw [Kind.toJson, Kind.ofJson?_single]
  | .wordBoundary, _ => by simp [Kind.toJson, Kind.ofJson?, Kind.ofName?]
  | .reference name, _ => by simp [Kind.toJson, Kind.ofJson?]

/-- A node is read as it was, with a quantifier or without one. -/
theorem Node.ofJson?_toJson :
    (node : Node) → node.Fits → Node.ofJson? node.toJson = some node
  | ⟨kind, none⟩, ⟨fits, _⟩ => by
      have found : Json.field "kind" [("kind", kind.toJson)] = .present kind.toJson := by simp
      rw [Node.toJson, Node.ofJson?_object found, Kind.ofJson?_toJson kind fits]
      simp
  | ⟨kind, some quantifier⟩, ⟨fits, bounded⟩ => by
      have found : Json.field "kind" [("kind", kind.toJson), ("quantifier", quantifier.toJson)] =
          .present kind.toJson := by simp
      rw [Node.toJson, Node.ofJson?_object found, Kind.ofJson?_toJson kind fits]
      simp [Json.nullable?_of_ne_null quantifier.toJson_ne_null,
        Quantifier.ofJson?_toJson (bounded quantifier rfl)]

/-- Nodes that fit are read from what they are written as, in their order. -/
theorem Node.ofJsonAll?_toJsonAll :
    (nodes : List Node) → Node.AllFit nodes → Node.ofJsonAll? (Node.toJsonAll nodes) = some nodes
  | [], _ => by rw [Node.toJsonAll, Node.ofJsonAll?]
  | node :: nodes, ⟨fits, allFit⟩ => by
      rw [Node.toJsonAll, Node.ofJsonAll?, Node.ofJson?_toJson node fits,
        Node.ofJsonAll?_toJsonAll nodes allFit]
      rfl

/-- A sequence is read as it was, with an alternate or without one. -/
theorem Sequence.ofJson?_toJson :
    (sequence : Sequence) → sequence.Fits → Sequence.ofJson? sequence.toJson = some sequence
  | .only nodes, fits => by
      let fields := [("nodes", Json.array (Node.toJsonAll nodes))]
      have members : Json.field "nodes" fields = .present (.array (Node.toJsonAll nodes)) := by
        simp [fields]
      have missing : Json.field "alternate" fields = .absent := by simp [fields]
      rw [Sequence.toJson, Sequence.ofJson?_only members missing,
        Node.ofJsonAll?_toJsonAll nodes fits]
      rfl
  | .either nodes alternate, ⟨allFit, fits⟩ => by
      let fields := [("nodes", Json.array (Node.toJsonAll nodes)), ("alternate", alternate.toJson)]
      have members : Json.field "nodes" fields = .present (.array (Node.toJsonAll nodes)) := by
        simp [fields]
      have other : Json.field "alternate" fields = .present alternate.toJson := by simp [fields]
      rw [Sequence.toJson, Sequence.ofJson?_either members other alternate.toJson_ne_null,
        Node.ofJsonAll?_toJsonAll nodes allFit, Sequence.ofJson?_toJson alternate fits]
      rfl

end

/-- A pattern that fits is read from what it is written as. -/
theorem Pattern.ofJson?_toJson {pattern : Pattern} (fits : pattern.Fits) :
    Pattern.ofJson? pattern.toJson = some pattern := by
  simp [Pattern.toJson, Pattern.ofJson?, Sequence.ofJson?_toJson _ fits.root,
    Json.natural?_natural fits.groups]

namespace ParseTree

/-! ### Parse trees -/

section

variable {α : Type} {write : α → Json} {read : Json → Option α} {name key : String}
  {fields : List (String × Json)} {label : String} {value : Option String} {offset : Option Nat}

/-- An optional entry adds no field of another name. -/
@[simp]
theorem field_optionalField_of_ne (other : key ≠ name) (entry : Option α) :
    Json.field name (optionalField key write entry) = .absent := by
  cases entry <;> simp [optionalField, other]

/-- Children add no field of another name. -/
@[simp]
theorem field_childrenField_of_ne (other : "nodes" ≠ name) (children : List Json) :
    Json.field name (childrenField children) = .absent := by
  cases children <;> simp [childrenField, other]

/-- What may be left out is read as it was, if it is never written as null. -/
theorem optional?_of_optionalField {entry : Option α}
    (same : Json.field name fields = Json.field name (optionalField name write entry))
    (reads : ∀ value, entry = some value →
      read (write value) = some value ∧ write value ≠ .null) :
    Json.optional? name (Json.nullable? read) none fields = some entry := by
  cases entry with
  | none => simp [Json.optional?, same, optionalField]
  | some value =>
      obtain ⟨back, notNull⟩ := reads value rfl
      simp [Json.optional?, same, optionalField, Json.nullable?_of_ne_null notNull, back]

/-- The fields of a node without children. -/
theorem ofJson?_childless
    (labelled : Json.required? "type" Json.string? fields = some label)
    (valued : Json.optional? "value" (Json.nullable? Json.string?) none fields = some value)
    (placed : Json.optional? "index" (Json.nullable? Json.natural?) none fields = some offset)
    (missing : Json.field "nodes" fields = .absent) :
    ofJson? (.object fields) = some { label, value, offset } := by
  rw [ofJson?, labelled, valued, placed]
  simp only [Option.bind_eq_bind, Option.bind_some]
  split
  · rfl
  · rename_i found
    cases missing.symm.trans found
  · rename_i other _
    exact absurd missing other

/-- A tree with children is read from an object that lists them. -/
theorem ofJson?_parent {items : List Json}
    (labelled : Json.required? "type" Json.string? fields = some label)
    (valued : Json.optional? "value" (Json.nullable? Json.string?) none fields = some value)
    (placed : Json.optional? "index" (Json.nullable? Json.natural?) none fields = some offset)
    (nodes : Json.field "nodes" fields = .present (.array items)) :
    ofJson? (.object fields) =
      (ofJsonAll? items).map fun children => { label, children, value, offset } := by
  rw [ofJson?, labelled, valued, placed]
  simp only [Option.bind_eq_bind, Option.bind_some]
  split
  · rename_i missing
    cases nodes.symm.trans missing
  · rename_i found
    cases nodes.symm.trans found
    exact (Option.map_eq_bind ..).symm
  · rename_i other
    exact absurd nodes (other _)

end

mutual

/-- A tree is read as it was, whatever its nodes do not have. -/
theorem ofJson?_toJson : (tree : ParseTree) → tree.Fits → ofJson? tree.toJson = some tree
  | ⟨label, children, value, offset⟩, ⟨allFit, small⟩ => by
      let fields := ("type", Json.string label) :: childrenField (toJsonAll children) ++
        optionalField "value" .string value ++ optionalField "index" .natural offset
      have labelled : Json.required? "type" Json.string? fields = some label := by simp [fields]
      have valued : Json.optional? "value" (Json.nullable? Json.string?) none fields = some value :=
        optional?_of_optionalField (by simp [fields]) fun text _ =>
          ⟨Json.string?_string text, nofun⟩
      have placed : Json.optional? "index" (Json.nullable? Json.natural?) none fields =
          some offset :=
        optional?_of_optionalField (by simp [fields]) fun n found =>
          ⟨Json.natural?_natural (small n found), nofun⟩
      have nodes : Json.field "nodes" fields =
          Json.field "nodes" (childrenField (toJsonAll children)) := by simp [fields]
      have back := ofJsonAll?_toJsonAll children allFit
      rw [toJson]
      cases children with
      | nil => exact ofJson?_childless labelled valued placed nodes
      | cons child children =>
          rw [ofJson?_parent labelled valued placed nodes, back]
          rfl

/-- Trees that fit are read from what they are written as, in their order. -/
theorem ofJsonAll?_toJsonAll :
    (trees : List ParseTree) → AllFit trees → ofJsonAll? (toJsonAll trees) = some trees
  | [], _ => by rw [toJsonAll, ofJsonAll?]
  | tree :: trees, ⟨fits, allFit⟩ => by
      rw [toJsonAll, ofJsonAll?, ofJson?_toJson tree fits, ofJsonAll?_toJsonAll trees allFit]
      rfl

end

end ParseTree

/-! ### Definitions and errors -/

/-- A rule is read from what it is written as. -/
theorem Rule.ofJson?_toJson (rule : Rule) : Rule.ofJson? rule.toJson = some rule := by
  simp [Rule.toJson, Rule.ofJson?]

/-- Options that fit are read from what they are written as. -/
theorem Options.ofJson?_toJson {options : Options} (fits : options.Fits) :
    Options.ofJson? options.toJson = some options := by
  simp [Options.toJson, Options.ofJson?, Json.natural?_natural fits]

/-- A definition that fits is read from what it is written as. -/
theorem Definition.ofJson?_toJson {definition : Definition} (fits : definition.Fits) :
    Definition.ofJson? definition.toJson = some definition := by
  have rules : ∀ rules : List Rule,
      Json.list? Rule.ofJson? (.array (rules.map Rule.toJson)) = some rules := fun rules =>
    Json.list?_map fun rule _ => rule.ofJson?_toJson
  simp [Definition.toJson, Definition.ofJson?, rules, Options.ofJson?_toJson fits]

/-- An error that fits is read from what it is written as. -/
theorem Error.ofJson?_toJson {error : Error} (fits : error.Fits) :
    Error.ofJson? error.toJson = some error := by
  have strings : ∀ names : List String,
      Json.list? Json.string? (.array (names.map .string)) = some names := fun names =>
    Json.list?_map fun name _ => Json.string?_string name
  rw [Error.toJson]
  cases error with
  | unknownIdentifier name rule => simp [Error.ofJson?, Error.name, Error.details, Error.ofDetails?]
  | duplicateName name => simp [Error.ofJson?, Error.name, Error.details, Error.ofDetails?]
  | _ =>
      simp [Error.ofJson?, Error.name, Error.details, Error.ofDetails?, strings,
        Json.natural?_natural fits]

namespace Encoding

/-- Whatever is left out of its JSON form, a value is read from it as it was: sequences,
nodes, kinds, quantifiers and patterns, parse trees, definitions with their rules and
options, and errors, all with numbers of 64 bits. -/
theorem round_trip :
    (∀ sequence : Sequence, sequence.Fits →
      Sequence.ofJson? sequence.toJson = some sequence) ∧
    (∀ node : Node, node.Fits → Node.ofJson? node.toJson = some node) ∧
    (∀ kind : Kind, kind.Fits → Kind.ofJson? kind.toJson = some kind) ∧
    (∀ quantifier : Quantifier, quantifier.Fits →
      Quantifier.ofJson? quantifier.toJson = some quantifier) ∧
    (∀ pattern : Pattern, pattern.Fits → Pattern.ofJson? pattern.toJson = some pattern) ∧
    (∀ tree : ParseTree, tree.Fits → ParseTree.ofJson? tree.toJson = some tree) ∧
    (∀ definition : Definition, definition.Fits →
      Definition.ofJson? definition.toJson = some definition) ∧
    (∀ rule : Rule, Rule.ofJson? rule.toJson = some rule) ∧
    (∀ options : Options, options.Fits → Options.ofJson? options.toJson = some options) ∧
    ∀ error : Error, error.Fits → Error.ofJson? error.toJson = some error :=
  ⟨Sequence.ofJson?_toJson, Node.ofJson?_toJson, Kind.ofJson?_toJson,
    fun _ => Quantifier.ofJson?_toJson, fun _ => Pattern.ofJson?_toJson,
    ParseTree.ofJson?_toJson, fun _ => Definition.ofJson?_toJson, Rule.ofJson?_toJson,
    fun _ => Options.ofJson?_toJson, fun _ => Error.ofJson?_toJson⟩

/-- Values of which much is left out, empty, without bound or as large as it gets. -/
theorem round_trip_of_sparse :
    let sequence : Sequence := .either []
      (.only [⟨.group 0 (.only []), some ⟨0, none⟩⟩, ⟨.set [⟨.single .dot, none⟩] true, none⟩])
    let tree : ParseTree :=
      { label := "", children := [{ label := "leaf", value := some "" }], offset := some maxNumber }
    let definition : Definition := { start := "", options := { recursionLimit := maxNumber } }
    (sequence.Fits ∧ tree.Fits ∧ definition.Fits) ∧
      Sequence.ofJson? sequence.toJson = some sequence ∧
      ParseTree.ofJson? tree.toJson = some tree ∧
      Definition.ofJson? definition.toJson = some definition ∧
      Error.ofJson? (Error.parseError [] 0).toJson = some (.parseError [] 0) := by
  intro sequence tree definition
  obtain ⟨sequences, _, _, _, _, trees, definitions, _, _, errors⟩ := round_trip
  have bounds : Quantifier.Fits ⟨0, none⟩ := ⟨by decide, nofun⟩
  have sequenceFits : sequence.Fits := by
    simp [sequence, Sequence.Fits, Node.AllFit, Node.Fits, Kind.Fits, bounds]
  have treeFits : tree.Fits := by simp [tree, ParseTree.Fits, ParseTree.AllFit]
  have definitionFits : definition.Fits := Nat.le_refl maxNumber
  exact ⟨⟨sequenceFits, treeFits, definitionFits⟩, sequences sequence sequenceFits,
    trees tree treeFits, definitions definition definitionFits,
    errors (.parseError [] 0) (Nat.zero_le maxNumber)⟩

end Encoding

end TextGrammar
