/-!
Parse trees.

A node with a value is a token: a piece of the input, found at an offset. Any
other node is a production and stands for its children. `tokens` gives the
leaves from left to right; range and text are read off them.
-/

namespace TextGrammar

/-- A parse tree, or a node of one together with all that is below it. -/
structure ParseTree where
  /-- The name of the token or production that the node is one of. -/
  label : String
  children : List ParseTree := []
  /-- The text of a token. -/
  value : Option String := none
  /-- Where a token starts in the input. -/
  offset : Option Nat := none

namespace ParseTree

def leaf (label value : String) (offset : Nat) : ParseTree :=
  { label, value := some value, offset := some offset }

def production (label : String) (children : List ParseTree) : ParseTree :=
  { label, children }

def isLeaf (tree : ParseTree) : Bool :=
  tree.value.isSome

/-- The tree with another name at its root. -/
def relabel (tree : ParseTree) (label : String) : ParseTree :=
  { tree with label }

mutual

/-- The tokens of a tree from left to right. A leaf is its own only token. -/
def tokens : ParseTree → List ParseTree
  | ⟨label, children, some value, offset⟩ => [⟨label, children, some value, offset⟩]
  | ⟨_, children, none, _⟩ => tokensOfAll children

/-- The tokens of several trees, one tree after another. -/
def tokensOfAll : List ParseTree → List ParseTree
  | [] => []
  | tree :: trees => tokens tree ++ tokensOfAll trees

end

/-- The offset right after a token. -/
def stop? (tree : ParseTree) : Option Nat := do
  let offset ← tree.offset
  let value ← tree.value
  return offset + value.utf8ByteSize

/-- From the start of the first token to the end of the last one. -/
def range? (tree : ParseTree) : Option (Nat × Nat) := do
  let first ← tree.tokens.head?
  let last ← tree.tokens.getLast?
  let start ← first.offset
  let stop ← last.stop?
  return (start, stop)

/-- The text of the tokens, without what stands between them. -/
def text (tree : ParseTree) : String :=
  String.join (tree.tokens.filterMap ParseTree.value)

def childrenLabelled (tree : ParseTree) (label : String) : List ParseTree :=
  tree.children.filter fun child => child.label = label

end ParseTree

/-- A way to point at one child of a node: by position, or as the first with a
name. -/
inductive ChildRef where
  | position (index : Nat)
  | label (label : String)
deriving DecidableEq, Repr

/-- A child that a node was asked for and does not have. -/
structure MissingChild where
  child : ChildRef
  /-- The name of the node that was asked. -/
  parent : String
deriving DecidableEq, Repr

def MissingChild.message : MissingChild → String
  | ⟨.position index, parent⟩ => s!"no child at position {index} in '{parent}'"
  | ⟨.label label, parent⟩ => s!"no child of type '{label}' in '{parent}'"

namespace ParseTree

def child (tree : ParseTree) (ref : ChildRef) : Except MissingChild ParseTree :=
  let found :=
    match ref with
    | .position index => tree.children[index]?
    | .label label => (tree.childrenLabelled label).head?
  match found with
  | some child => .ok child
  | none => .error ⟨ref, tree.label⟩

/-- The node reached by going from child to child. -/
def descendant (tree : ParseTree) : List ChildRef → Except MissingChild ParseTree
  | [] => .ok tree
  | ref :: path => do (← tree.child ref).descendant path

end ParseTree

end TextGrammar
