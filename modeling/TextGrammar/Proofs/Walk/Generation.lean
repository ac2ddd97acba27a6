import TextGrammar.Pattern.Basic
import TextGrammar.Tree.Basic

/-!
The trees that a sequence stands for.

A sequence whose nodes refer to names generates words, which are lists of trees.
`Sequence.Generates` reads the sequence as a grammar would: it knows nothing of
texts and offsets, of the order in which alternatives are tried, or of how far a
repetition goes. The one trace of how sequences are walked is in
`Quantifier.Permits`: a repetition may stay below its minimum when it ends with
an iteration without tokens.
-/

namespace TextGrammar

/-- Whether a node with these bounds may stand for these iterations: not more
than the maximum, and as many as the minimum unless the last one has no token. -/
def Quantifier.Permits (bounds : Quantifier) (iterations : List (List ParseTree)) : Prop :=
  (∀ max, bounds.max = some max → iterations.length ≤ max) ∧
    (bounds.min ≤ iterations.length ∨
      ∃ last, iterations.getLast? = some last ∧ ParseTree.tokensOfAll last = [])

/-- Words one after another, each of a language, as often as the bounds permit. -/
def Iterated (language : List ParseTree → Prop) (bounds : Quantifier) (word : List ParseTree) :
    Prop :=
  ∃ iterations : List (List ParseTree),
    word = iterations.flatten ∧ (∀ iteration ∈ iterations, language iteration) ∧
      bounds.Permits iterations

mutual

/-- The words of a kind: those of the body of a group, those of an item of a
set, and for a reference one tree with that name. What tests characters leaves
no tree, and neither does a negated set. -/
def Kind.Generates : Kind → List ParseTree → Prop
  | .group _ body, word => body.Generates word
  | .set items false, word => Node.AnyGenerates items word
  | .set _ true, word => word = []
  | .single _, word => word = []
  | .wordBoundary, word => word = []
  | .reference name, word => ∃ tree, word = [tree] ∧ tree.label = name

/-- The words of a node: as many words of its kind as its bounds permit. -/
def Node.Generates : Node → List ParseTree → Prop
  | ⟨kind, quantifier⟩, word =>
      Iterated (fun iteration => kind.Generates iteration) (quantifier.getD .once) word

def Node.AllGenerate : List Node → List ParseTree → Prop
  | [], word => word = []
  | node :: nodes, word =>
      ∃ first rest, word = first ++ rest ∧ node.Generates first ∧ Node.AllGenerate nodes rest

/-- The words of one of several kinds. -/
def Node.AnyGenerates : List Node → List ParseTree → Prop
  | [], _ => False
  | ⟨kind, _⟩ :: nodes, word => kind.Generates word ∨ Node.AnyGenerates nodes word

/-- The words of a sequence: those of its nodes, or of one of its alternatives. -/
def Sequence.Generates : Sequence → List ParseTree → Prop
  | .only nodes, word => Node.AllGenerate nodes word
  | .either nodes alternate, word => Node.AllGenerate nodes word ∨ alternate.Generates word

end

namespace ParseTree

@[simp] theorem tokensOfAll_append (front back : List ParseTree) :
    tokensOfAll (front ++ back) = tokensOfAll front ++ tokensOfAll back := by
  induction front with
  | nil => simp [tokensOfAll]
  | cons tree trees ih => simp [tokensOfAll, ih]

@[simp] theorem tokensOfAll_singleton (tree : ParseTree) : tokensOfAll [tree] = tree.tokens := by
  simp [tokensOfAll]

@[simp] theorem tokens_leaf (label value : String) (offset : Nat) :
    (leaf label value offset).tokens = [leaf label value offset] := by
  simp [leaf, tokens]

@[simp] theorem tokens_production (label : String) (children : List ParseTree) :
    (production label children).tokens = tokensOfAll children := by
  simp [production, tokens]

end ParseTree

end TextGrammar
