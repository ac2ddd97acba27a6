import TextGrammar.Tree.Traversal

/-!
The calls of a walk.

In any monad a walk makes its calls one after another and does nothing else
(`walk_eq_forM`). They are nested like the nodes (`bracketed_calls`): every node of the
tree is entered once and left once, with the node it is a child of as its parent
(`mem_entered_iff`, `mem_left_iff`), and none is left before the nodes below it
(`left_ordered`).
-/

namespace TextGrammar

/-- A node where it is in a tree: the positions of children that lead to it from the
root, and its parent. -/
structure Visit where
  path : List Nat
  node : ParseTree
  parent : Option ParseTree

/-- A call of a visitor. -/
inductive VisitorCall where
  | enter (visit : Visit)
  | exit (visit : Visit)

namespace VisitorCall

def make {m : Type → Type} (visitor : Visitor m) : VisitorCall → m Unit
  | .enter visit => visitor.enter visit.node visit.parent
  | .exit visit => visitor.exit visit.node visit.parent

def entered? : VisitorCall → Option Visit
  | .enter visit => some visit
  | .exit _ => none

def left? : VisitorCall → Option Visit
  | .enter _ => none
  | .exit visit => some visit

end VisitorCall

/-- Whatever is entered is left, and in between only its children are entered, and they
are left too. The calls are for nodes with this parent. -/
inductive Bracketed : Option ParseTree → List VisitorCall → Prop where
  | nil {parent : Option ParseTree} : Bracketed parent []
  | node {visit : Visit} {inside after : List VisitorCall} :
      Bracketed (some visit.node) inside → Bracketed visit.parent after →
      Bracketed visit.parent (.enter visit :: (inside ++ .exit visit :: after))

namespace ParseTree

mutual

/-- The calls for a node and everything below it, if it is found by this path under this
parent. -/
def callsFrom (path : List Nat) (parent : Option ParseTree) : ParseTree → List VisitorCall
  | ⟨label, children, value, offset⟩ =>
      .enter ⟨path, ⟨label, children, value, offset⟩, parent⟩ ::
        (callsOfAll path ⟨label, children, value, offset⟩ 0 children ++
          [.exit ⟨path, ⟨label, children, value, offset⟩, parent⟩])

/-- The calls for the children of a node from a position on. -/
def callsOfAll (path : List Nat) (parent : ParseTree) (position : Nat) :
    List ParseTree → List VisitorCall
  | [] => []
  | tree :: trees =>
      callsFrom (path ++ [position]) (some parent) tree ++
        callsOfAll path parent (position + 1) trees

end

def calls (tree : ParseTree) : List VisitorCall :=
  tree.callsFrom [] none

/-- The nodes in the order in which a walk enters them. -/
def entered (tree : ParseTree) : List Visit :=
  tree.calls.filterMap VisitorCall.entered?

/-- The nodes in the order in which a walk leaves them. -/
def left (tree : ParseTree) : List Visit :=
  tree.calls.filterMap VisitorCall.left?

/-- The node that is found by a path. -/
def at? (tree : ParseTree) (path : List Nat) : Option ParseTree :=
  (tree.descendant (path.map .position)).toOption

end ParseTree

/-- The visit is of a node of the tree: its parent is found by the path without its last
step, and the root has none. -/
structure Visit.IsIn (visit : Visit) (tree : ParseTree) : Prop where
  node : tree.at? visit.path = some visit.node
  parent : visit.parent = if visit.path = [] then none else tree.at? visit.path.dropLast

/-! ### Walking -/

section Walking

variable {m : Type → Type} [Monad m] [LawfulMonad m]

mutual

/-- The walk of a tree makes its calls in their order, in whatever monad. -/
theorem ParseTree.walkFrom_eq_forM (visitor : Visitor m) :
    (tree : ParseTree) → (path : List Nat) → (parent : Option ParseTree) →
      tree.walkFrom visitor parent = forM (tree.callsFrom path parent) (·.make visitor)
  | ⟨label, children, value, offset⟩, path, parent => by
      rw [ParseTree.walkFrom, ParseTree.callsFrom,
        ParseTree.walkAll_eq_forM visitor children path _ 0]
      simp [VisitorCall.make]

theorem ParseTree.walkAll_eq_forM (visitor : Visitor m) :
    (trees : List ParseTree) → (path : List Nat) → (parent : ParseTree) → (position : Nat) →
      ParseTree.walkAll visitor parent trees =
        forM (ParseTree.callsOfAll path parent position trees) (·.make visitor)
  | [], _, _, _ => by rw [ParseTree.walkAll, ParseTree.callsOfAll, List.forM_nil]
  | tree :: trees, path, parent, position => by
      rw [ParseTree.walkAll, ParseTree.callsOfAll, List.forM_append,
        ← ParseTree.walkFrom_eq_forM visitor tree, ← ParseTree.walkAll_eq_forM visitor trees]

end

/-- A walk makes its calls one after another. -/
theorem ParseTree.walk_eq_forM (tree : ParseTree) (visitor : Visitor m) :
    tree.walk visitor = forM tree.calls (·.make visitor) :=
  tree.walkFrom_eq_forM visitor [] none

end Walking

/-! ### Brackets -/

namespace Bracketed

variable {parent : Option ParseTree} {front back calls : List VisitorCall}

/-- Calls that are bracketed stay so one after another. -/
theorem append (first : Bracketed parent front) (second : Bracketed parent back) :
    Bracketed parent (front ++ back) := by
  induction first with
  | nil => exact second
  | node inside _ _ ih =>
      rw [List.cons_append, List.append_assoc, List.cons_append]
      exact .node inside (ih second)

/-- What is entered is what is left. -/
theorem perm (bracketed : Bracketed parent calls) :
    (calls.filterMap VisitorCall.entered?).Perm (calls.filterMap VisitorCall.left?) := by
  induction bracketed with
  | nil => exact .nil
  | @node visit inside after _ _ ihInside ihAfter =>
      simp only [List.filterMap_cons, List.filterMap_append, VisitorCall.entered?,
        VisitorCall.left?]
      exact ((ihInside.append ihAfter).cons visit).trans List.perm_middle.symm

end Bracketed

namespace ParseTree

mutual

/-- The calls for a tree are bracketed: what is entered is left, after all that is below
it. -/
theorem bracketed_callsFrom : (tree : ParseTree) → (path : List Nat) →
    (parent : Option ParseTree) → Bracketed parent (tree.callsFrom path parent)
  | ⟨label, children, value, offset⟩, path, parent => by
      rw [callsFrom]
      have inside := bracketed_callsOfAll children path ⟨label, children, value, offset⟩ 0
      exact @Bracketed.node ⟨path, ⟨label, children, value, offset⟩, parent⟩ _ _ inside .nil

theorem bracketed_callsOfAll : (trees : List ParseTree) → (path : List Nat) →
    (parent : ParseTree) → (position : Nat) →
      Bracketed (some parent) (callsOfAll path parent position trees)
  | [], _, _, _ => by
      rw [callsOfAll]
      exact .nil
  | tree :: trees, path, parent, position => by
      rw [callsOfAll]
      exact (bracketed_callsFrom tree (path ++ [position]) (some parent)).append
        (bracketed_callsOfAll trees path parent (position + 1))

end

/-- All calls of a walk are bracketed. -/
theorem bracketed_calls (tree : ParseTree) : Bracketed none tree.calls :=
  tree.bracketed_callsFrom [] none

/-- What is entered is left, and each node as often. -/
theorem entered_perm_left (tree : ParseTree) : tree.entered.Perm tree.left :=
  tree.bracketed_calls.perm

/-! ### Leaving -/

/-- The nodes below a node and the node itself, in the order in which they are left. -/
def leftFrom (path : List Nat) (parent : Option ParseTree) (tree : ParseTree) : List Visit :=
  (tree.callsFrom path parent).filterMap VisitorCall.left?

/-- The children of a node and what is below them, in the order in which they are left. -/
def leftOfAll (path : List Nat) (parent : ParseTree) (position : Nat) (trees : List ParseTree) :
    List Visit :=
  (callsOfAll path parent position trees).filterMap VisitorCall.left?

/-- A node is left after its children, which are left in their order. -/
theorem leftFrom_eq (tree : ParseTree) (path : List Nat) (parent : Option ParseTree) :
    tree.leftFrom path parent =
      leftOfAll path tree 0 tree.children ++ [⟨path, tree, parent⟩] := by
  cases tree
  simp [leftFrom, callsFrom, leftOfAll, List.filterMap_cons, VisitorCall.left?]

@[simp]
theorem leftOfAll_nil (path : List Nat) (parent : ParseTree) (position : Nat) :
    leftOfAll path parent position [] = [] := by
  simp [leftOfAll, callsOfAll]

theorem leftOfAll_cons (tree : ParseTree) (trees : List ParseTree) (path : List Nat)
    (parent : ParseTree) (position : Nat) :
    leftOfAll path parent position (tree :: trees) =
      tree.leftFrom (path ++ [position]) (some parent) ++
        leftOfAll path parent (position + 1) trees := by
  simp [leftOfAll, callsOfAll, leftFrom]

/-! ### Places in a tree -/

theorem at?_nil (tree : ParseTree) : tree.at? [] = some tree :=
  rfl

/-- A path leads first to the child at its head. -/
theorem at?_cons (tree : ParseTree) (position : Nat) (path : List Nat) :
    tree.at? (position :: path) = tree.children[position]?.bind (·.at? path) := by
  unfold at?
  rw [List.map_cons, descendant, child]
  cases tree.children[position]? <;> rfl

/-- The node that is found by a path, and its parent if the tree itself has this parent. -/
def under (parent : Option ParseTree) (tree : ParseTree) :
    List Nat → Option (ParseTree × Option ParseTree)
  | [] => some (tree, parent)
  | position :: path => tree.children[position]?.bind fun child => child.under (some tree) path

/-- Under a parent a path leads to the node there with the node above it, which is the
parent itself for the empty path. -/
theorem under_eq (path : List Nat) (parent : Option ParseTree) (tree : ParseTree) :
    tree.under parent path = (tree.at? path).map fun node =>
      (node, if path = [] then parent else tree.at? path.dropLast) := by
  induction path generalizing parent tree with
  | nil => rfl
  | cons position path ih =>
      rw [under, at?_cons]
      cases found : tree.children[position]? with
      | none => rfl
      | some child =>
          simp only [Option.bind_some, ih]
          cases path with
          | nil => simp [at?_nil]
          | cons next path => simp [at?_cons, found]

/-- A visit is one of a tree if its path leads to its node and to its parent. -/
theorem isIn_iff {visit : Visit} (tree : ParseTree) :
    visit.IsIn tree ↔ tree.under none visit.path = some (visit.node, visit.parent) := by
  rw [under_eq, Option.map_eq_some_iff]
  constructor
  · intro isIn
    exact ⟨visit.node, isIn.node, by rw [isIn.parent]⟩
  · rintro ⟨node, found, same⟩
    obtain ⟨rfl, parent⟩ := Prod.ext_iff.mp same
    exact ⟨found, parent.symm⟩

mutual

/-- The nodes that are left are those of the tree. -/
theorem mem_leftFrom {visit : Visit} : (tree : ParseTree) → (path : List Nat) →
    (parent : Option ParseTree) → (visit ∈ tree.leftFrom path parent ↔ ∃ below,
      visit.path = path ++ below ∧ tree.under parent below = some (visit.node, visit.parent))
  | ⟨label, children, value, offset⟩, path, parent => by
      rw [leftFrom_eq, List.mem_append, List.mem_singleton, mem_leftOfAll children]
      constructor
      · rintro (⟨index, child, below, found, leads, isUnder⟩ | rfl)
        · refine ⟨index :: below, by simpa using leads, ?_⟩
          rw [under, found]
          exact isUnder
        · exact ⟨[], by simp, rfl⟩
      · rintro ⟨below, leads, isUnder⟩
        cases below with
        | nil =>
            obtain ⟨path', node, parent'⟩ := visit
            cases isUnder
            exact .inr (by simpa using leads)
        | cons index below =>
            rw [under] at isUnder
            obtain ⟨child, found, isUnder⟩ := Option.bind_eq_some_iff.mp isUnder
            exact .inl ⟨index, child, below, found, by simpa using leads, isUnder⟩

/-- What is left among some trees is left below one of them, whose position starts the
rest of its path. -/
theorem mem_leftOfAll {visit : Visit} : (trees : List ParseTree) → (path : List Nat) →
    (parent : ParseTree) → (position : Nat) →
      (visit ∈ leftOfAll path parent position trees ↔ ∃ index child below,
        trees[index]? = some child ∧ visit.path = path ++ (position + index) :: below ∧
          child.under (some parent) below = some (visit.node, visit.parent))
  | [], _, _, _ => by simp
  | tree :: trees, path, parent, position => by
      rw [leftOfAll_cons, List.mem_append, mem_leftFrom tree, mem_leftOfAll trees]
      constructor
      · rintro (⟨below, leads, isUnder⟩ | ⟨index, child, below, found, leads, isUnder⟩)
        · exact ⟨0, tree, below, rfl, by simpa using leads, isUnder⟩
        · refine ⟨index + 1, child, below, found, ?_, isUnder⟩
          rw [leads, Nat.add_assoc, Nat.add_comm 1 index]
      · rintro ⟨index, child, below, found, leads, isUnder⟩
        cases index with
        | zero =>
            cases found
            exact .inl ⟨below, by simpa using leads, isUnder⟩
        | succ index =>
            refine .inr ⟨index, child, below, found, ?_, isUnder⟩
            rw [leads, Nat.add_assoc, Nat.add_comm 1 index]

end

/-- The nodes that are left are the nodes of the tree. -/
theorem mem_left_iff {tree : ParseTree} {visit : Visit} :
    visit ∈ tree.left ↔ visit.IsIn tree := by
  rw [isIn_iff, left, calls]
  refine (mem_leftFrom tree [] none).trans ?_
  simp

/-- The nodes that are entered are the nodes of the tree. -/
theorem mem_entered_iff {tree : ParseTree} {visit : Visit} :
    visit ∈ tree.entered ↔ visit.IsIn tree :=
  tree.entered_perm_left.mem_iff.trans mem_left_iff

/-! ### Order -/

/-- Below a node all paths start with its own. -/
theorem isPrefix_of_mem_leftFrom {tree : ParseTree} {path : List Nat} {parent : Option ParseTree}
    {visit : Visit} (mem : visit ∈ tree.leftFrom path parent) : path <+: visit.path := by
  obtain ⟨below, leads, _⟩ := (mem_leftFrom tree path parent).mp mem
  exact ⟨below, leads.symm⟩

/-- Among trees from a position on, all paths go on with that position or a later one. -/
theorem exists_isPrefix_of_mem_leftOfAll {trees : List ParseTree} {path : List Nat}
    {parent : ParseTree} {position : Nat} {visit : Visit}
    (mem : visit ∈ leftOfAll path parent position trees) :
    ∃ further, position ≤ further ∧ path ++ [further] <+: visit.path := by
  obtain ⟨index, _, below, _, leads, _⟩ := (mem_leftOfAll trees path parent position).mp mem
  exact ⟨position + index, Nat.le_add_right _ _, below, by simp [leads]⟩

mutual

/-- No node is left before a node below it. -/
theorem leftFrom_ordered : (tree : ParseTree) → (path : List Nat) → (parent : Option ParseTree) →
    (tree.leftFrom path parent).Pairwise fun earlier later => ¬ earlier.path <+: later.path
  | ⟨label, children, value, offset⟩, path, parent => by
      rw [leftFrom_eq, List.pairwise_append]
      refine ⟨leftOfAll_ordered children path _ 0, List.pairwise_singleton .., ?_⟩
      intro earlier inside later last beneath
      rw [List.mem_singleton.mp last] at beneath
      obtain ⟨position, _, leads⟩ := exists_isPrefix_of_mem_leftOfAll inside
      have longer : path.length + 1 ≤ path.length := by
        simpa using (leads.trans beneath).length_le
      omega

theorem leftOfAll_ordered : (trees : List ParseTree) → (path : List Nat) →
    (parent : ParseTree) → (position : Nat) →
      (leftOfAll path parent position trees).Pairwise
        fun earlier later => ¬ earlier.path <+: later.path
  | [], _, _, _ => by simp
  | tree :: trees, path, parent, position => by
      rw [leftOfAll_cons, List.pairwise_append]
      refine ⟨leftFrom_ordered tree _ _, leftOfAll_ordered trees path parent _, ?_⟩
      intro earlier inFirst later inRest beneath
      obtain ⟨further, le, leads⟩ := exists_isPrefix_of_mem_leftOfAll inRest
      have first := (isPrefix_of_mem_leftFrom inFirst).trans beneath
      have same : position = further := by
        simpa using (List.prefix_of_prefix_length_le first leads (by simp)).eq_of_length (by simp)
      omega

end

/-- No node is left before those below it, and none is left twice. -/
theorem left_ordered (tree : ParseTree) :
    tree.left.Pairwise fun earlier later => ¬ earlier.path <+: later.path :=
  tree.leftFrom_ordered [] none

/-- No node is left twice. -/
theorem left_nodup (tree : ParseTree) : (tree.left.map Visit.path).Nodup := by
  rw [List.Nodup, List.pairwise_map]
  refine tree.left_ordered.imp ?_
  intro earlier later apart same
  exact apart (same ▸ List.prefix_rfl)

/-- No node is entered twice. -/
theorem entered_nodup (tree : ParseTree) : (tree.entered.map Visit.path).Nodup :=
  (tree.entered_perm_left.map Visit.path).nodup_iff.mpr tree.left_nodup

end ParseTree

end TextGrammar
