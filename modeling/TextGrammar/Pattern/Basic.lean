import TextGrammar.CharClass

/-!
The tree shared by patterns and grammar expressions.

A sequence is a list of nodes with, perhaps, another sequence to fall back on. A
node says what to match and how often. The same tree serves token patterns,
whose nodes test characters, and production expressions, whose nodes refer to
tokens and productions by name.
-/

namespace TextGrammar

/-- How often a node is to be matched; without a maximum, as often as possible. -/
structure Quantifier where
  min : Nat
  max : Option Nat
deriving DecidableEq, Repr

namespace Quantifier

/-- Exactly once, as every node without a quantifier. -/
def once : Quantifier := ⟨1, some 1⟩

def zeroOrMore : Quantifier := ⟨0, none⟩

def onceOrMore : Quantifier := ⟨1, none⟩

def atMostOnce : Quantifier := ⟨0, some 1⟩

def exactly (n : Nat) : Quantifier := ⟨n, some n⟩

def atLeast (min : Nat) : Quantifier := ⟨min, none⟩

/-- Between two bounds, if they are in order. -/
def between? (min max : Nat) : Option Quantifier :=
  if min ≤ max then some ⟨min, some max⟩ else none

def isOnce (q : Quantifier) : Bool := q = once

/-- Whether another repetition may follow that many. -/
def allowsMore (q : Quantifier) (quantity : Nat) : Bool :=
  match q.max with
  | none => true
  | some max => quantity < max

end Quantifier

mutual

/-- What a node matches. -/
inductive Kind where
  /-- A group that captures what its body matches. -/
  | group (number : Nat) (body : Sequence)
  /-- One of the items or, negated, a character where none of them matches. -/
  | set (items : List Node) (negated : Bool)
  /-- One character of a class. -/
  | single (chars : CharClass)
  /-- The empty text between a word character and anything else. -/
  | wordBoundary
  /-- Whatever a name stands for. -/
  | reference (name : String)

/-- A kind with its quantifier; without one it is matched exactly once. -/
inductive Node where
  | mk (kind : Kind) (quantifier : Option Quantifier)

/-- Nodes to match one after another, alone or with a sequence to try instead. -/
inductive Sequence where
  | only (nodes : List Node)
  | either (nodes : List Node) (alternate : Sequence)

end

namespace Kind

def literal (c : Char) : Kind := .single (.literal c)

/-- Whether the kind takes this character by itself. Groups, sets, references
and word boundaries take none. -/
def accepts : Kind → Char → Bool
  | .single chars, c => chars.accepts c
  | _, _ => false

def group? : Kind → Option Nat
  | .group number _ => some number
  | _ => none

def reference? : Kind → Option String
  | .reference name => some name
  | _ => none

end Kind

namespace Node

def kind : Node → Kind
  | ⟨kind, _⟩ => kind

def quantifier : Node → Option Quantifier
  | ⟨_, quantifier⟩ => quantifier

def one (kind : Kind) : Node := ⟨kind, none⟩

/-- The kind under a quantifier; to ask for exactly one match is to ask for
nothing, so that quantifier is left out. -/
def quantified (kind : Kind) (quantifier : Option Quantifier) : Node :=
  ⟨kind, quantifier.filter fun q => !q.isOnce⟩

/-- The bounds that hold for the node, with or without a quantifier. -/
def bounds (node : Node) : Quantifier :=
  node.quantifier.getD .once

end Node

namespace Sequence

/-- The nodes of the first alternative. -/
def nodes : Sequence → List Node
  | .only nodes => nodes
  | .either nodes _ => nodes

/-- The nodes of each alternative in turn. -/
def alternatives : Sequence → List (List Node)
  | .only nodes => [nodes]
  | .either nodes alternate => nodes :: alternate.alternatives

/-- The sequence with another one to try after its own alternatives. -/
def or : Sequence → Sequence → Sequence
  | .only nodes, other => .either nodes other
  | .either nodes alternate, other => .either nodes (alternate.or other)

end Sequence

mutual

/-- The nodes inside a kind, depth first. -/
def Kind.visit : Kind → List Node
  | .group _ body => body.visit
  | .set items _ => Node.visitAll items
  | .single _ => []
  | .wordBoundary => []
  | .reference _ => []

/-- A node, then the nodes inside it. -/
def Node.visit : Node → List Node
  | ⟨kind, quantifier⟩ => ⟨kind, quantifier⟩ :: kind.visit

def Node.visitAll : List Node → List Node
  | [] => []
  | node :: nodes => node.visit ++ Node.visitAll nodes

/-- Every node of a sequence and its alternatives, in source order. -/
def Sequence.visit : Sequence → List Node
  | .only nodes => Node.visitAll nodes
  | .either nodes alternate => Node.visitAll nodes ++ alternate.visit

end

/-- The names referred to anywhere in a sequence, in source order. -/
def Sequence.references (sequence : Sequence) : List String :=
  sequence.visit.filterMap fun node => node.kind.reference?

/-- The numbers of the groups in a sequence, in source order. -/
def Sequence.groupNumbers (sequence : Sequence) : List Nat :=
  sequence.visit.filterMap fun node => node.kind.group?

end TextGrammar
