import TextGrammar.Tree.Basic

/-!
Going through parse trees.

`ParseTree.walk` calls a visitor on every node twice, before and after its
children. `ParseTree.transform` builds a value from the leaves upwards. Both
work in any monad, so that visitors may keep a state and transformations may
fail.
-/

namespace TextGrammar

variable {m : Type → Type} [Monad m]

/-- What is to be done with a node, given its parent in the walk. -/
structure Visitor (m : Type → Type) where
  enter : ParseTree → Option ParseTree → m Unit
  exit : ParseTree → Option ParseTree → m Unit

/-- How values are built from a tree. -/
structure Transformation (m : Type → Type) (α : Type) where
  /-- The value of a token with this parent, or nothing to drop the token. -/
  token : ParseTree → ParseTree → m (Option α)
  /-- The value of a production from the values of its children. -/
  production : ParseTree → List α → m α

namespace ParseTree

mutual

/-- Visits a node and everything below it in source order. -/
def walkFrom (visitor : Visitor m) (parent : Option ParseTree) : ParseTree → m Unit
  | ⟨label, children, value, offset⟩ => do
      visitor.enter ⟨label, children, value, offset⟩ parent
      walkAll visitor ⟨label, children, value, offset⟩ children
      visitor.exit ⟨label, children, value, offset⟩ parent

def walkAll (visitor : Visitor m) (parent : ParseTree) : List ParseTree → m Unit
  | [] => return
  | tree :: trees => do
      walkFrom visitor (some parent) tree
      walkAll visitor parent trees

end

/-- Visits a tree; its root has no parent. -/
def walk (tree : ParseTree) (visitor : Visitor m) : m Unit :=
  walkFrom visitor none tree

variable {α : Type}

mutual

/-- The value of a production. The root of the tree is taken for one even if it
is a leaf. -/
def transform (transformation : Transformation m α) : ParseTree → m α
  | ⟨label, children, value, offset⟩ => do
      let values ← transformAll transformation ⟨label, children, value, offset⟩ children
      transformation.production ⟨label, children, value, offset⟩ values

/-- The values of the children of a node, without the dropped ones. -/
def transformAll (transformation : Transformation m α) (parent : ParseTree) :
    List ParseTree → m (List α)
  | [] => return []
  | tree :: trees => do
      let value ←
        if tree.isLeaf then transformation.token tree parent
        else some <$> transform transformation tree
      let values ← transformAll transformation parent trees
      return value.toList ++ values

end

end ParseTree

end TextGrammar
