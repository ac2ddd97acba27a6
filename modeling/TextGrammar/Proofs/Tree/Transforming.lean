import Mathlib.Logic.Function.Basic
import TextGrammar.Proofs.Parse.Soundness
import TextGrammar.Proofs.Tree.Visits

/-!
The calls of a transformation.

Where leaves have no children, a transformation takes the nodes of a tree in the order in
which a walk leaves them (`map_transform_eq_foldlM`): tokens are asked for their values,
and productions for theirs from those of their children, until a call fails. Every tree
that a parse comes to is of this kind (`IsProper`).
-/

namespace TextGrammar

/-- What a transformation is asked for. -/
inductive Request (α : Type) where
  | token (node parent : ParseTree)
  | production (node : ParseTree) (values : List α)

def Request.token? {α : Type} : Request α → Option ParseTree
  | .token node _ => some node
  | .production _ _ => none

/-- What a transformation is asked for at a node, given the values that there are so far:
for the value of a token, or for that of a production from the values of its children
without the dropped ones. The root is taken for a production. -/
def Visit.request {α : Type} (values : List Nat → Option α) (visit : Visit) : Request α :=
  match visit.parent, visit.node.isLeaf with
  | some parent, true => .token visit.node parent
  | _, _ =>
      .production visit.node ((List.range visit.node.children.length).filterMap fun position =>
        values (visit.path ++ [position]))

/-- What is asked for at a node, and the value that is the answer. -/
def Visit.answered {α ε : Type} (values : List Nat → Option α) (visit : Visit) :
    Request α × Except ε (Option α) :=
  (visit.request values, .ok (values visit.path))

namespace Transformation

variable {m : Type → Type} [Monad m] {α : Type}

def answer (transformation : Transformation m α) : Request α → m (Option α)
  | .token node parent => transformation.token node parent
  | .production node values => some <$> transformation.production node values

/-- The values that there are after another node. -/
def settle (transformation : Transformation m α) (values : List Nat → Option α) (visit : Visit) :
    m (List Nat → Option α) := do
  let value ← transformation.answer (visit.request values)
  return Function.update values visit.path value

/-- The calls are made one after another, each in the state that the one before it has
left, and they are answered like this. -/
inductive Replays {ε σ : Type} (transformation : Transformation (ExceptT ε (StateM σ)) α) :
    σ → List (Request α × Except ε (Option α)) → σ → Prop where
  | nil {state : σ} : Replays transformation state [] state
  | cons {state next final : σ} {request : Request α} {answer : Except ε (Option α)}
      {calls : List (Request α × Except ε (Option α))} :
      (transformation.answer request).run.run state = (answer, next) →
      Replays transformation next calls final →
      Replays transformation state ((request, answer) :: calls) final

end Transformation

namespace ParseTree

/-! ### Trees without anything below leaves -/

/-- No leaf has children. -/
def LeavesBare (tree : ParseTree) : Prop :=
  ∀ path node, tree.at? path = some node → node.isLeaf = true → node.children = []

/-- No leaf has children, and the root is no leaf. -/
structure IsProper (tree : ParseTree) : Prop where
  bare : tree.LeavesBare
  root : tree.isLeaf = false

/-- What holds of the leaves of a tree holds of those below each of its children. -/
theorem LeavesBare.of_mem {tree child : ParseTree} (bare : tree.LeavesBare)
    (mem : child ∈ tree.children) : child.LeavesBare := by
  obtain ⟨position, found⟩ := List.mem_iff_getElem?.mp mem
  intro path node isAt
  apply bare (position :: path)
  rw [at?_cons, found]
  exact isAt

/-- A tree whose root obeys the rule, and all of whose children do, obeys it. -/
theorem leavesBare_of_children {tree : ParseTree}
    (childless : tree.isLeaf = true → tree.children = [])
    (bare : ∀ child ∈ tree.children, child.LeavesBare) : tree.LeavesBare := by
  intro path node isAt
  cases path with
  | nil =>
      cases isAt
      exact childless
  | cons position path =>
      rw [at?_cons] at isAt
      obtain ⟨child, found, isAt⟩ := Option.bind_eq_some_iff.mp isAt
      exact bare child (List.mem_of_getElem? found) path node isAt

/-- What a grammar derives has nothing below its leaves. -/
theorem leavesBare_of_derives {grammar : Grammar} {text : Text} {tree : ParseTree}
    (derived : grammar.Derives text tree) : tree.LeavesBare := by
  induction derived with
  | token => exact leavesBare_of_children (fun _ => rfl) nofun
  | production _ _ _ ih => exact leavesBare_of_children nofun ih

/-- Every tree that a parse comes to is proper. -/
theorem isProper_of_parse_eq_tree {definition : Definition} {grammar : Grammar} {text : Text}
    {tree : ParseTree} (compiled : definition.compile = .ok grammar)
    (parsed : grammar.parse text = .tree tree) : tree.IsProper := by
  have closed := Definition.closed_of_compile_eq_ok compiled
  obtain ⟨label, _, spans, _⟩ := Grammar.spans_of_parse_eq_tree closed parsed
  have derived : grammar.Derives text tree := spans.derived tree (List.mem_singleton_self tree)
  obtain ⟨children, root⟩ := closed.root_of_derives derived label
  refine ⟨leavesBare_of_derives derived, ?_⟩
  rw [root]
  rfl

section Tokens

variable {α : Type} (values : List Nat → Option α)

mutual

/-- A transformation asks for the tokens of a tree from left to right. -/
theorem filterMap_leftFrom : (tree : ParseTree) → (path : List Nat) →
    (parent : Option ParseTree) → tree.LeavesBare → (tree.isLeaf = true → parent ≠ none) →
      (tree.leftFrom path parent).filterMap (fun visit => (visit.request values).token?) =
        tree.tokens
  | ⟨label, children, some value, offset⟩, path, parent, bare, rooted => by
      have childless : children = [] := bare [] _ rfl rfl
      obtain ⟨node, rfl⟩ := Option.ne_none_iff_exists'.mp (rooted rfl)
      subst childless
      simp [leftFrom_eq, tokens, Visit.request, Request.token?, isLeaf]
  | ⟨label, children, none, offset⟩, path, parent, bare, _ => by
      rw [leftFrom_eq, List.filterMap_append, tokens,
        filterMap_leftOfAll children path _ 0 fun _ mem => bare.of_mem mem]
      cases parent <;> simp [Visit.request, Request.token?, isLeaf]

/-- Of the nodes below a parent, those that a token is asked for are its leaves, from left
to right. -/
theorem filterMap_leftOfAll : (trees : List ParseTree) → (path : List Nat) →
    (parent : ParseTree) → (position : Nat) → (∀ tree ∈ trees, tree.LeavesBare) →
      (leftOfAll path parent position trees).filterMap
        (fun visit => (visit.request values).token?) = tokensOfAll trees
  | [], _, _, _, _ => by simp [tokensOfAll]
  | tree :: trees, path, parent, position, bare => by
      obtain ⟨first, rest⟩ := List.forall_mem_cons.mp bare
      rw [leftOfAll_cons, List.filterMap_append, tokensOfAll,
        filterMap_leftFrom tree _ _ first (by simp), filterMap_leftOfAll trees path parent _ rest]

end

end Tokens

/-! ### Node by node -/

section Fold

variable {m : Type → Type} [Monad m] {α β : Type}

/-- The value at a node under this parent. -/
def valueUnder (transformation : Transformation m α) (parent : Option ParseTree)
    (tree : ParseTree) : m (Option α) :=
  match parent, tree.isLeaf with
  | some parent, true => transformation.token tree parent
  | _, _ => some <$> tree.transform transformation

/-- A tree is transformed by asking for its children's values first, then for its own. -/
theorem transform_eq (transformation : Transformation m α) (tree : ParseTree) :
    tree.transform transformation =
      transformAll transformation tree tree.children >>= transformation.production tree := by
  cases tree
  rw [transform]

/-- The values of children are those of the first and then those of the others. -/
theorem transformAll_cons (transformation : Transformation m α) (parent tree : ParseTree)
    (trees : List ParseTree) :
    transformAll transformation parent (tree :: trees) = do
      let value ← tree.valueUnder transformation (some parent)
      let values ← transformAll transformation parent trees
      return value.toList ++ values := by
  rw [transformAll]
  unfold valueUnder
  cases tree.isLeaf <;> rfl

/-- A leaf below a parent has the value that is given for its token. -/
theorem valueUnder_of_token {transformation : Transformation m α} {tree parent : ParseTree}
    (leaf : tree.isLeaf = true) :
    tree.valueUnder transformation (some parent) = transformation.token tree parent := by
  simp [valueUnder, leaf]

/-- Whatever is no leaf below a parent has the value of a production, which is never
absent. -/
theorem valueUnder_of_production {transformation : Transformation m α}
    {parent : Option ParseTree} {tree : ParseTree}
    (other : ¬ (tree.isLeaf = true ∧ parent ≠ none)) :
    tree.valueUnder transformation parent = some <$> tree.transform transformation := by
  unfold valueUnder
  split
  · rename_i leaf
    exact absurd ⟨leaf, nofun⟩ other
  · rfl

variable [LawfulMonad m]

/-- At a leaf below a parent, the value of its token is put down under its path. -/
theorem settle_of_token {transformation : Transformation m α} {tree parent : ParseTree}
    {path : List Nat} {values : List Nat → Option α} (leaf : tree.isLeaf = true) :
    transformation.settle values ⟨path, tree, some parent⟩ = do
      let value ← transformation.token tree parent
      return Function.update values path value := by
  simp [Transformation.settle, Visit.request, leaf, Transformation.answer]

/-- At any other node, the values that its children have left are put together. -/
theorem settle_of_production {transformation : Transformation m α}
    {parent : Option ParseTree} {tree : ParseTree} {path : List Nat}
    {values : List Nat → Option α} (other : ¬ (tree.isLeaf = true ∧ parent ≠ none)) :
    transformation.settle values ⟨path, tree, parent⟩ = do
      let value ← transformation.production tree
        ((List.range tree.children.length).filterMap fun position => values (path ++ [position]))
      return Function.update values path (some value) := by
  unfold Transformation.settle Visit.request
  split
  · rename_i under leaf
    exact absurd ⟨leaf, Option.ne_none_iff_exists'.mpr ⟨_, under⟩⟩ other
  · simp [Transformation.answer]

mutual

/-- Whatever comes next, if it looks at nothing that is new but the value at the node, it
is the same whether the nodes are taken one after another or the tree is transformed. -/
theorem foldlM_leftFrom (transformation : Transformation m α) :
    (tree : ParseTree) → (path : List Nat) → (parent : Option ParseTree) → tree.LeavesBare →
      ∀ (values : List Nat → Option α) (next : (List Nat → Option α) → m β)
        (next' : Option α → m β),
        (∀ after, (∀ other, ¬ path <+: other → after other = values other) →
          next after = next' (after path)) →
        (tree.leftFrom path parent).foldlM transformation.settle values >>= next =
          tree.valueUnder transformation parent >>= next'
  | ⟨label, children, value, offset⟩, path, parent, bare, values, next, next', same => by
      by_cases asked : (⟨label, children, value, offset⟩ : ParseTree).isLeaf = true ∧ parent ≠ none
      · obtain ⟨leaf, rooted⟩ := asked
        obtain ⟨parent, rfl⟩ := Option.ne_none_iff_exists'.mp rooted
        have childless : children = [] := bare [] _ rfl leaf
        subst childless
        rw [leftFrom_eq, leftOfAll_nil, List.nil_append, List.foldlM_cons, settle_of_token leaf,
          valueUnder_of_token leaf]
        simp only [List.foldlM_nil, bind_assoc, pure_bind]
        refine bind_congr fun found => ?_
        rw [same, Function.update_self]
        intro other beside
        rw [Function.update_of_ne]
        exact fun here => beside (here ▸ List.prefix_rfl)
      · rw [leftFrom_eq, List.foldlM_append, valueUnder_of_production asked, transform_eq,
          bind_assoc]
        simp only [map_bind, bind_assoc]
        apply foldlM_leftOfAll transformation children path _ 0 fun _ mem => bare.of_mem mem
        intro below kept
        simp only [List.foldlM_cons, List.foldlM_nil, settle_of_production asked, bind_assoc,
          pure_bind, bind_map_left]
        rw [List.range_eq_range']
        refine bind_congr fun found => ?_
        rw [same, Function.update_self]
        intro other beside
        rw [Function.update_of_ne, kept]
        · intro further _ beneath
          exact beside ((List.prefix_append _ _).trans beneath)
        · exact fun here => beside (here ▸ List.prefix_rfl)

/-- To go through the nodes below a parent in the order in which they are left is to
transform them, if what comes next reads only the values at the children's paths. -/
theorem foldlM_leftOfAll (transformation : Transformation m α) :
    (trees : List ParseTree) → (path : List Nat) → (parent : ParseTree) → (position : Nat) →
      (∀ tree ∈ trees, tree.LeavesBare) →
      ∀ (values : List Nat → Option α) (next : (List Nat → Option α) → m β)
        (next' : List α → m β),
        (∀ after, (∀ other, (∀ further, position ≤ further → ¬ path ++ [further] <+: other) →
            after other = values other) →
          next after = next' ((List.range' position trees.length).filterMap fun further =>
            after (path ++ [further]))) →
        (leftOfAll path parent position trees).foldlM transformation.settle values >>= next =
          transformAll transformation parent trees >>= next'
  | [], path, parent, position, _, values, next, next', same => by
      simpa [transformAll] using same values fun _ _ => rfl
  | tree :: trees, path, parent, position, bare, values, next, next', same => by
      obtain ⟨first, rest⟩ := List.forall_mem_cons.mp bare
      rw [leftOfAll_cons, List.foldlM_append, bind_assoc, transformAll_cons, bind_assoc]
      apply foldlM_leftFrom transformation tree _ _ first
      intro middle kept
      rw [bind_assoc]
      simp only [pure_bind]
      apply foldlM_leftOfAll transformation trees path parent _ rest
      intro after keptAfter
      have here : after (path ++ [position]) = middle (path ++ [position]) := by
        apply keptAfter
        intro further later beneath
        have same : further = position := by
          simpa using beneath.eq_of_length (by simp)
        omega
      have kept : ∀ other, (∀ further, position ≤ further → ¬ path ++ [further] <+: other) →
          after other = values other := by
        intro other beside
        rw [keptAfter other fun further later => beside further (by omega),
          kept other (beside position (Nat.le_refl _))]
      rw [same after kept, List.length_cons, List.range'_succ, List.filterMap_cons, here]
      cases middle (path ++ [position]) <;> rfl

end

/-- A transformation takes the nodes one after another, in the order in which a walk
leaves them. -/
theorem map_transform_eq_foldlM {tree : ParseTree} (bare : tree.LeavesBare)
    (transformation : Transformation m α) :
    some <$> tree.transform transformation =
      (· []) <$> tree.left.foldlM transformation.settle fun _ => none := by
  have same := foldlM_leftFrom transformation tree [] none bare (fun _ => none)
    (fun values => pure (values [])) pure fun _ _ => rfl
  rw [valueUnder_of_production (by simp), bind_pure] at same
  rw [← same, ← bind_pure_comp]
  rfl

end Fold

/-! ### Call by call -/

section Calls

variable {ε σ α : Type} {transformation : Transformation (ExceptT ε (StateM σ)) α}

section

variable {β γ : Type} {call : ExceptT ε (StateM σ) β} {state next : σ}
  {rest : β → ExceptT ε (StateM σ) γ}

/-- After a call that was answered, the rest goes on from the state it has left. -/
theorem run_bind_of_ok {value : β} (answered : call.run.run state = (.ok value, next)) :
    (call >>= rest).run.run state = (rest value).run.run next := by
  rw [ExceptT.run_bind, StateT.run_bind, answered]
  rfl

/-- A function of the answer changes nothing of the state. -/
theorem run_map_eq {function : β → γ} {answer : Except ε β}
    (answered : call.run.run state = (answer, next)) :
    (function <$> call).run.run state = (answer.map function, next) := by
  rw [ExceptT.run_map, StateT.run_map, answered]
  rfl

/-- Nothing comes after a call that fails. -/
theorem run_bind_of_error {error : ε} (answered : call.run.run state = (.error error, next)) :
    (call >>= rest).run.run state = (.error error, next) := by
  rw [ExceptT.run_bind, StateT.run_bind, answered]
  rfl

end

/-- Nothing is read at a node but what there is at the children. -/
theorem request_congr {values values' : List Nat → Option α} {visit : Visit}
    (same : ∀ position, values (visit.path ++ [position]) = values' (visit.path ++ [position])) :
    visit.request values = visit.request values' := by
  unfold Visit.request
  simp only [same]

/-- A request that was answered leaves its value under the path of the node. -/
theorem run_settle_of_ok {visit : Visit} {values : List Nat → Option α} {state next : σ}
    {value : Option α} {rest : (List Nat → Option α) → ExceptT ε (StateM σ) (List Nat → Option α)}
    (answered : (transformation.answer (visit.request values)).run.run state =
      (.ok value, next)) :
    (transformation.settle values visit >>= rest).run.run state =
      (rest (Function.update values visit.path value)).run.run next := by
  rw [Transformation.settle, bind_assoc, run_bind_of_ok answered, pure_bind]

/-- A request that failed ends everything, in the state that it has left. -/
theorem run_settle_of_error {visit : Visit} {values : List Nat → Option α} {state next : σ}
    {error : ε} {rest : (List Nat → Option α) → ExceptT ε (StateM σ) (List Nat → Option α)}
    (answered : (transformation.answer (visit.request values)).run.run state =
      (.error error, next)) :
    (transformation.settle values visit >>= rest).run.run state = (.error error, next) := by
  rw [Transformation.settle, bind_assoc, run_bind_of_error answered]

/-- What is below a node is not among visits that are all apart from it. -/
theorem not_mem_of_apart {visits : List Visit} {path beneath : List Nat}
    (apart : ∀ other ∈ visits, ¬ path <+: other.path) (below : path <+: beneath) :
    beneath ∉ visits.map Visit.path := by
  intro mem
  obtain ⟨other, later, rfl⟩ := List.mem_map.mp mem
  exact apart other later below

/-- Nodes are taken one after another until a call fails. -/
theorem foldlM_settle_cases (visits : List Visit) (values : List Nat → Option α) (state : σ)
    (ordered : visits.Pairwise fun earlier later => ¬ earlier.path <+: later.path) :
    ∃ (after : List Nat → Option α) (final : σ),
      (∀ path, path ∉ visits.map Visit.path → after path = values path) ∧
      (((visits.foldlM transformation.settle values).run.run state = (.ok after, final) ∧
        transformation.Replays state
          (visits.map (Visit.answered after)) final) ∨
      ∃ done visit later error, visits = done ++ visit :: later ∧
        (visits.foldlM transformation.settle values).run.run state = (.error error, final) ∧
        transformation.Replays state
          (done.map (Visit.answered after) ++ [(visit.request after, .error error)]) final) := by
  induction visits generalizing values state with
  | nil => exact ⟨values, state, fun _ _ => rfl, .inl ⟨rfl, .nil⟩⟩
  | cons visit visits ih =>
      obtain ⟨apart, ordered⟩ := List.pairwise_cons.mp ordered
      rw [List.foldlM_cons]
      cases answered : (transformation.answer (visit.request values)).run.run state with
      | mk answer next =>
          cases answer with
          | error error =>
              refine ⟨values, next, fun _ _ => rfl, .inr ⟨[], visit, visits, error, rfl, ?_,
                .cons answered .nil⟩⟩
              rw [run_settle_of_error answered]
          | ok value =>
              obtain ⟨after, final, kept, ends⟩ :=
                ih (Function.update values visit.path value) next ordered
              -- What is at the node and below it stays as it is from here on.
              have value : after visit.path = value := by
                rw [kept _ (not_mem_of_apart apart List.prefix_rfl), Function.update_self]
              have request : visit.request values = visit.request after := by
                apply request_congr
                intro position
                rw [kept _ (not_mem_of_apart apart (List.prefix_append ..)),
                  Function.update_of_ne (by simp)]
              rw [run_settle_of_ok answered]
              rw [request, ← value] at answered
              refine ⟨after, final, ?_, ?_⟩
              · intro path other
                rw [kept path (List.not_mem_of_not_mem_cons other),
                  Function.update_of_ne (List.ne_of_not_mem_cons other)]
              · rcases ends with ⟨folds, replays⟩ |
                  ⟨done, failing, rest, error, rfl, folds, replays⟩
                · exact .inl ⟨folds, .cons answered replays⟩
                · exact .inr ⟨visit :: done, failing, rest, error, rfl, folds,
                    .cons answered replays⟩

/-- A transformation ends as the last call does. -/
theorem run_transform {tree : ParseTree} (bare : tree.LeavesBare) {state final : σ}
    {answer : Except ε (List Nat → Option α)}
    (folds : (tree.left.foldlM transformation.settle fun _ => none).run.run state =
      (answer, final)) :
    ∃ result, (tree.transform transformation).run.run state = (result, final) ∧
      result.map some = answer.map (· []) := by
  have whole : (some <$> tree.transform transformation).run.run state =
      ((· []) <$> tree.left.foldlM transformation.settle fun _ => none).run.run state := by
    rw [map_transform_eq_foldlM bare]
  cases transforms : (tree.transform transformation).run.run state with
  | mk result last =>
      rw [run_map_eq transforms, run_map_eq folds] at whole
      obtain ⟨same, rfl⟩ := Prod.mk.inj whole
      exact ⟨result, rfl, same⟩

end Calls

/-- On every tree that a parse comes to, and wherever else no leaf has children and the
root is no leaf, a walk and a transformation go the same way. A walk enters every node
once and leaves it once, nested like the nodes and with the parent of each. In the order
in which it leaves them a transformation asks for the value of the tokens of the tree, and
for that of every other node from those of its children, without the ones that are dropped;
it goes on until there is a value for the root or a call fails, and ends with this error. -/
theorem traversals_agree :
    (∀ {definition : Definition} {grammar : Grammar} {text : Text} {tree : ParseTree},
      definition.compile = .ok grammar → grammar.parse text = .tree tree → tree.IsProper) ∧
    ∀ tree : ParseTree, tree.IsProper →
      (∀ {m : Type → Type} [Monad m] [LawfulMonad m] (visitor : Visitor m),
        tree.walk visitor = forM tree.calls (·.make visitor)) ∧
      Bracketed none tree.calls ∧
      ((tree.entered.map Visit.path).Nodup ∧ ∀ visit, visit ∈ tree.entered ↔ visit.IsIn tree) ∧
      ((tree.left.map Visit.path).Nodup ∧ ∀ visit, visit ∈ tree.left ↔ visit.IsIn tree) ∧
      (tree.left.Pairwise fun earlier later => ¬ earlier.path <+: later.path) ∧
      ∀ {ε σ α : Type} (transformation : Transformation (ExceptT ε (StateM σ)) α) (state : σ),
        ∃ (values : List Nat → Option α) (final : σ),
          tree.left.filterMap (fun visit => (visit.request values).token?) = tree.tokens ∧
          ((∃ value, (tree.transform transformation).run.run state = (.ok value, final) ∧
              values [] = some value ∧
              transformation.Replays state (tree.left.map (Visit.answered values)) final) ∨
            ∃ done visit later error, tree.left = done ++ visit :: later ∧
              (tree.transform transformation).run.run state = (.error error, final) ∧
              transformation.Replays state
                (done.map (Visit.answered values) ++ [(visit.request values, .error error)])
                final) := by
  refine ⟨isProper_of_parse_eq_tree, fun tree proper => ?_⟩
  refine ⟨fun visitor => tree.walk_eq_forM visitor, tree.bracketed_calls,
    ⟨tree.entered_nodup, fun _ => mem_entered_iff⟩, ⟨tree.left_nodup, fun _ => mem_left_iff⟩,
    tree.left_ordered, ?_⟩
  intro ε σ α transformation state
  obtain ⟨values, final, _, ends⟩ :=
    foldlM_settle_cases tree.left (fun _ => none) state tree.left_ordered
  have tokens := tree.filterMap_leftFrom values [] none proper.bare (by simp [proper.root])
  refine ⟨values, final, tokens, ?_⟩
  rcases ends with ⟨folds, replays⟩ | ⟨done, visit, later, error, isLeft, folds, replays⟩
  · obtain ⟨result, transforms, same⟩ := run_transform proper.bare folds
    cases result with
    | error error => cases same
    | ok value => exact .inl ⟨value, transforms, (Except.ok.inj same).symm, replays⟩
  · obtain ⟨result, transforms, same⟩ := run_transform proper.bare folds
    cases result with
    | ok value => cases same
    | error error =>
        cases same
        exact .inr ⟨done, visit, later, error, isLeft, transforms, replays⟩

/-- Counts the nodes that are entered. -/
def counter : Visitor (StateM Nat) where
  enter _ _ := modify (· + 1)
  exit _ _ := return

/-- Counts numbers, and gives up at a token when there is no patience left. -/
def impatient : Transformation (ExceptT String (StateM Nat)) Nat where
  token node _ := do
    match ← get with
    | 0 => throw node.label
    | patience + 1 =>
        set patience
        return if node.label = "number" then some 1 else none
  production _ values := return values.foldl (· + ·) 0

/-- With patience for two tokens the third one is asked for too, and no other. -/
theorem traversals_agree_on_sum :
    ∃ grammar tree, Definition.sums.compile = .ok grammar ∧
      grammar.parse "1 + (20+3)".toList = .tree tree ∧ tree.IsProper ∧
      tree.walk counter = forM tree.calls (·.make counter) ∧
      ∃ values done visit later, tree.left = done ++ visit :: later ∧
        (tree.transform impatient).run.run 2 = (.error "open", 0) ∧
        impatient.Replays 2
          (done.map (Visit.answered values) ++ [(visit.request values, .error "open")]) 0 := by
  obtain ⟨proper, agree⟩ := traversals_agree
  obtain ⟨grammar, tree, compiled, parsed, test⟩ :=
    Definition.exists_of_yields Definition.sums "1 + (20+3)".toList
      (show Definition.yields _ _ (fun _ tree =>
        match (tree.transform impatient).run.run 2 with
        | (.error error, patience) => error == "open" && patience == 0
        | _ => false) = true by decide +kernel)
  have proper : tree.IsProper := proper compiled parsed
  obtain ⟨walks, _, _, _, _, transforms⟩ := agree tree proper
  refine ⟨grammar, tree, compiled, parsed, proper, walks counter, ?_⟩
  obtain ⟨values, final, _, ends⟩ := transforms impatient 2
  rcases ends with ⟨value, result, _⟩ | ⟨done, visit, later, error, isLeft, result, replays⟩
  · simp [result] at test
  · simp only [result, Bool.and_eq_true, beq_iff_eq] at test
    obtain ⟨rfl, rfl⟩ := test
    exact ⟨values, done, visit, later, isLeft, result, replays⟩

end ParseTree

end TextGrammar
