import TextGrammar.Proofs.Walk.Concurrence

/-!
Numbers of groups.

To give the groups of a sequence other numbers changes what its walks capture and
nothing else, as long as references don't care for captures
(`Sequence.walk_renumber`). So sequences that are the same but for such numbers
match alike and record the same trees.
-/

namespace TextGrammar

mutual

/-- The kind with other numbers for its groups. -/
def Kind.renumber (number : Nat → Nat) : Kind → Kind
  | .group old body => .group (number old) (body.renumber number)
  | .set items negated => .set (Node.renumberAll number items) negated
  | .single chars => .single chars
  | .wordBoundary => .wordBoundary
  | .reference name => .reference name

def Node.renumber (number : Nat → Nat) : Node → Node
  | ⟨kind, quantifier⟩ => ⟨kind.renumber number, quantifier⟩

def Node.renumberAll (number : Nat → Nat) : List Node → List Node
  | [] => []
  | node :: nodes => node.renumber number :: Node.renumberAll number nodes

def Sequence.renumber (number : Nat → Nat) : Sequence → Sequence
  | .only nodes => .only (Node.renumberAll number nodes)
  | .either nodes alternate =>
      .either (Node.renumberAll number nodes) (alternate.renumber number)

end

/-- The sequence without its group numbers: every group has number 0. -/
def Sequence.unnumbered (sequence : Sequence) : Sequence :=
  sequence.renumber fun _ => 0

variable {ε σ : Type} {number : Nat → Nat}

/-! ### Nodes and alternatives -/

mutual

/-- The nodes of a renumbered kind are those of the kind, renumbered. -/
theorem Kind.visit_renumber : ∀ (kind : Kind),
    (kind.renumber number).visit = kind.visit.map (Node.renumber number)
  | .group _ body => by rw [Kind.renumber, Kind.visit, Kind.visit, body.visit_renumber]
  | .set items _ => by rw [Kind.renumber, Kind.visit, Kind.visit, Node.visitAll_renumberAll items]
  | .single _ => by simp [Kind.renumber, Kind.visit]
  | .wordBoundary => by simp [Kind.renumber, Kind.visit]
  | .reference _ => by simp [Kind.renumber, Kind.visit]

theorem Node.visit_renumber : ∀ (node : Node),
    (node.renumber number).visit = node.visit.map (Node.renumber number)
  | ⟨kind, quantifier⟩ => by
      rw [Node.renumber, Node.visit, Node.visit, kind.visit_renumber, List.map_cons, Node.renumber]

theorem Node.visitAll_renumberAll : ∀ (nodes : List Node),
    Node.visitAll (Node.renumberAll number nodes) =
      (Node.visitAll nodes).map (Node.renumber number)
  | [] => by simp [Node.renumberAll, Node.visitAll]
  | node :: nodes => by
      rw [Node.renumberAll, Node.visitAll, Node.visitAll, node.visit_renumber,
        Node.visitAll_renumberAll nodes, List.map_append]

/-- A visit comes across the renumbered nodes in the same order. -/
theorem Sequence.visit_renumber : ∀ (sequence : Sequence),
    (sequence.renumber number).visit = sequence.visit.map (Node.renumber number)
  | .only nodes => by
      rw [Sequence.renumber, Sequence.visit, Sequence.visit, Node.visitAll_renumberAll nodes]
  | .either nodes alternate => by
      rw [Sequence.renumber, Sequence.visit, Sequence.visit, Node.visitAll_renumberAll nodes,
        alternate.visit_renumber, List.map_append]

end

/-- Other numbers leave the references as they are. -/
theorem Node.kind_renumber_eq_reference_iff {number : Nat → Nat} {node : Node} {name : String} :
    (node.renumber number).kind = .reference name ↔ node.kind = .reference name := by
  obtain ⟨kind, quantifier⟩ := node
  cases kind <;> simp [Node.renumber, Kind.renumber, Node.kind]

/-- The alternatives of a renumbered sequence are those it had, renumbered. -/
theorem Sequence.alternatives_renumber (number : Nat → Nat) : ∀ (sequence : Sequence),
    (sequence.renumber number).alternatives =
      sequence.alternatives.map (Node.renumberAll number)
  | .only nodes => by
      rw [Sequence.renumber, Sequence.alternatives, Sequence.alternatives]
      rfl
  | .either nodes alternate => by
      rw [Sequence.renumber, Sequence.alternatives, Sequence.alternatives,
        Sequence.alternatives_renumber number alternate]
      rfl

/-! ### Walks -/

/-- Traces of which only the captures may differ. -/
def SameTrees (trace trace' : Trace) : Prop :=
  trace'.trees = trace.trees

/-- Two walks that end alike, but may have captured something else. -/
structure Walked.Resembles (walked walked' : Walked ε σ) : Prop where
  outcome : walked'.outcome = walked.outcome
  trees : walked'.trace.trees = walked.trace.trees
  state : walked'.state = walked.state

/-- References do the same whatever has been captured. -/
def Setting.Heedless (setting : Setting ε σ) : Prop :=
  ∀ name offset (trace trace' : Trace) state, trace'.trees = trace.trees →
    (setting.resolve name offset trace state).Resembles
      (setting.resolve name offset trace' state)

namespace Walked.Resembles

variable {walked walked' : Walked ε σ}

/-- Every walk resembles itself. -/
theorem refl (walked : Walked ε σ) : walked.Resembles walked :=
  ⟨rfl, rfl, rfl⟩

/-- If a walk resembles another one, that one resembles it. -/
theorem symm (resembles : walked.Resembles walked') : walked'.Resembles walked :=
  ⟨resembles.outcome.symm, resembles.trees.symm, resembles.state.symm⟩

/-- What resembles a walk that resembles a third one resembles the third. -/
theorem trans {walked'' : Walked ε σ} (resembles : walked.Resembles walked')
    (resembles' : walked'.Resembles walked'') : walked.Resembles walked'' :=
  ⟨resembles'.outcome.trans resembles.outcome, resembles'.trees.trans resembles.trees,
    resembles'.state.trans resembles.state⟩

/-- Walks that resemble each other record the same trees. -/
theorem concurs (resembles : walked.Resembles walked') : walked.Concurs SameTrees walked' :=
  ⟨resembles.outcome, resembles.state, fun _ => resembles.trees⟩

/-- Walks that concur and take their traces back when they fail resemble each other. -/
theorem of_concurs {entered : Trace} (concurs : walked.Concurs SameTrees walked')
    (tidy : walked.Tidy entered) (tidy' : walked'.Tidy entered) : walked.Resembles walked' :=
  ⟨concurs.outcome, concurs.near_of_tidy tidy tidy' rfl, concurs.state⟩

/-- Walks that resemble each other stay so with continuations that do, whatever was
captured. -/
theorem andThen {next next' : Nat → Trace → σ → Walked ε σ} (resembles : walked.Resembles walked')
    (goOn : ∀ stop (trace trace' : Trace) state, trace'.trees = trace.trees →
      (next stop trace state).Resembles (next' stop trace' state)) :
    (walked.andThen next).Resembles (walked'.andThen next') := by
  obtain ⟨outcome, trace, state⟩ := walked
  obtain ⟨outcome', trace', state'⟩ := walked'
  obtain ⟨rfl, trees, rfl⟩ := resembles
  cases outcome' with
  | reached stop => exact goOn stop trace trace' state' trees
  | failed | raised | misplaced => exact ⟨rfl, trees, rfl⟩

/-- Walks that resemble each other stay so with alternatives that do, whatever was
captured. -/
theorem orElse {other other' : Trace → σ → Walked ε σ} (resembles : walked.Resembles walked')
    (goOn : ∀ (trace trace' : Trace) state, trace'.trees = trace.trees →
      (other trace state).Resembles (other' trace' state)) :
    (walked.orElse other).Resembles (walked'.orElse other') := by
  obtain ⟨outcome, trace, state⟩ := walked
  obtain ⟨outcome', trace', state'⟩ := walked'
  obtain ⟨rfl, trees, rfl⟩ := resembles
  cases outcome' with
  | failed => exact goOn trace trace' state' trees
  | reached | raised | misplaced => exact ⟨rfl, trees, rfl⟩

/-- Walks of items that resemble each other stay so when the set is negated. -/
theorem negate {trace trace' : Trace} (resembles : walked.Resembles walked')
    (trees : trace'.trees = trace.trees) (character : Outcome ε) :
    (walked.negate trace character).Resembles (walked'.negate trace' character) := by
  obtain ⟨outcome, after, state⟩ := walked
  obtain ⟨outcome', after', state'⟩ := walked'
  obtain ⟨rfl, afters, rfl⟩ := resembles
  cases outcome' with
  | reached stop => exact ⟨rfl, trees, rfl⟩
  | failed | raised | misplaced => exact ⟨rfl, afters, rfl⟩

/-- A renumbered group is settled like the group. -/
theorem settleRepetition {trace trace' : Trace} (resembles : walked.Resembles walked')
    (trees : trace'.trees = trace.trees) (kind : Kind) (bounds : Quantifier)
    (offset quantity : Nat) :
    (settleRepetition kind bounds offset trace quantity walked).Resembles
      (settleRepetition (kind.renumber number) bounds offset trace' quantity walked') := by
  obtain ⟨outcome, after, state⟩ := walked
  obtain ⟨outcome', after', state'⟩ := walked'
  obtain ⟨rfl, afters, rfl⟩ := resembles
  simp only at afters
  cases outcome' with
  | reached stop =>
      unfold TextGrammar.settleRepetition
      simp only
      split
      · exact ⟨rfl, trees, rfl⟩
      · cases kind with
        | group =>
            simp only [Kind.renumber, Kind.group?]
            split <;> exact ⟨rfl, afters, rfl⟩
        | set | single | wordBoundary | reference => exact ⟨rfl, afters, rfl⟩
  | failed | raised | misplaced => exact ⟨rfl, afters, rfl⟩

/-- A repetition doesn't fail by itself, so it is enough that the attempts concur. -/
theorem repeatWithin {attempt attempt' : Nat → Trace → σ → Walked ε σ} (bounds : Quantifier)
    (attempted : ∀ offset (trace trace' : Trace) state, trace'.trees = trace.trees →
      (attempt offset trace state).Resembles (attempt' offset trace' state))
    (attempts quantity offset : Nat) (trace trace' : Trace) (state : σ)
    (trees : trace'.trees = trace.trees) :
    (repeatWithin attempt' bounds attempts quantity offset trace' state).1 =
        (repeatWithin attempt bounds attempts quantity offset trace state).1 ∧
      (repeatWithin attempt bounds attempts quantity offset trace state).2.Resembles
        (repeatWithin attempt' bounds attempts quantity offset trace' state).2 := by
  have concur : ∀ offset state {trace trace'}, SameTrees trace trace' →
      (attempt offset trace state).Concurs SameTrees (attempt' offset trace' state) :=
    fun offset state {trace trace'} same => (attempted offset trace trace' state same).concurs
  obtain ⟨counted, concurs⟩ :=
    repeatWithin_concurs bounds concur attempts quantity offset state trees
  have unfailed := repeatWithin_ne_failed attempt bounds attempts quantity offset trace state
  exact ⟨counted, concurs.outcome, concurs.trace unfailed, concurs.state⟩

end Walked.Resembles

mutual

theorem Kind.walk_renumber {setting : Setting ε σ} (heedless : setting.Heedless) :
    ∀ (kind : Kind) offset (trace trace' : Trace) state, trace'.trees = trace.trees →
      (kind.walk setting offset trace state).Resembles
        ((kind.renumber number).walk setting offset trace' state)
  | .group _ body, offset, trace, trace', state, trees => by
      rw [Kind.renumber, Kind.walk, Kind.walk]
      exact Sequence.walk_renumber heedless body offset trace trace' state trees
  | .set items false, offset, trace, trace', state, trees => by
      rw [Kind.renumber, Kind.walk, Kind.walk]
      exact Node.walkAny_renumberAll heedless items offset trace trace' state trees
  | .set items true, offset, trace, trace', state, trees => by
      rw [Kind.renumber, Kind.walk_negated, Kind.walk_negated]
      exact (Node.walkAny_renumberAll heedless items offset trace trace' state trees).negate trees _
  | .single _, _, _, _, _, trees => by
      rw [Kind.renumber, Kind.walk, Kind.walk]
      exact ⟨rfl, trees, rfl⟩
  | .wordBoundary, _, _, _, _, trees => by
      rw [Kind.renumber, Kind.walk, Kind.walk]
      exact ⟨rfl, trees, rfl⟩
  | .reference name, offset, trace, trace', state, trees => by
      rw [Kind.renumber, Kind.walk, Kind.walk]
      exact heedless name offset trace trace' state trees

theorem Node.walk_renumber {setting : Setting ε σ} (heedless : setting.Heedless) :
    ∀ (node : Node) offset (trace trace' : Trace) state, trace'.trees = trace.trees →
      (node.walk setting offset trace state).Resembles
        ((node.renumber number).walk setting offset trace' state)
  | ⟨kind, quantifier⟩, offset, trace, trace', state, trees => by
      obtain ⟨counted, resembles⟩ := Walked.Resembles.repeatWithin
        (quantifier.getD .once) (Kind.walk_renumber heedless kind)
        (setting.furtherAttempts offset + 1) 0 offset trace trace' state trees
      rw [Node.renumber, Node.walk, Node.walk]
      simp only
      rw [counted]
      exact resembles.settleRepetition trees kind _ offset _

theorem Node.walkAll_renumberAll {setting : Setting ε σ} (heedless : setting.Heedless) :
    ∀ (nodes : List Node) offset (trace trace' : Trace) state, trace'.trees = trace.trees →
      (Node.walkAll setting nodes offset trace state).Resembles
        (Node.walkAll setting (Node.renumberAll number nodes) offset trace' state)
  | [], _, _, _, _, trees => by
      rw [Node.renumberAll, Node.walkAll, Node.walkAll]
      exact ⟨rfl, trees, rfl⟩
  | node :: nodes, offset, trace, trace', state, trees => by
      rw [Node.renumberAll, Node.walkAll_cons, Node.walkAll_cons]
      exact (Node.walk_renumber heedless node offset trace trace' state trees).andThen
        (Node.walkAll_renumberAll heedless nodes)

theorem Node.walkAny_renumberAll {setting : Setting ε σ} (heedless : setting.Heedless) :
    ∀ (nodes : List Node) offset (trace trace' : Trace) state, trace'.trees = trace.trees →
      (Node.walkAny setting nodes offset trace state).Resembles
        (Node.walkAny setting (Node.renumberAll number nodes) offset trace' state)
  | [], _, _, _, _, trees => by
      rw [Node.renumberAll, Node.walkAny, Node.walkAny]
      exact ⟨rfl, trees, rfl⟩
  | ⟨kind, quantifier⟩ :: nodes, offset, trace, trace', state, trees => by
      rw [Node.renumberAll, Node.renumber, Node.walkAny_cons, Node.walkAny_cons]
      exact (Kind.walk_renumber heedless kind offset trace trace' state trees).orElse
        (Node.walkAny_renumberAll heedless nodes offset)

/-- To renumber its groups changes nothing but the captures of a sequence. -/
theorem Sequence.walk_renumber {setting : Setting ε σ} (heedless : setting.Heedless) :
    ∀ (sequence : Sequence) offset (trace trace' : Trace) state, trace'.trees = trace.trees →
      (sequence.walk setting offset trace state).Resembles
        ((sequence.renumber number).walk setting offset trace' state)
  | .only nodes, offset, trace, trace', state, trees => by
      rw [Sequence.renumber, Sequence.walk_only, Sequence.walk_only]
      exact (Node.walkAll_renumberAll heedless nodes offset trace trace' state trees).orElse
        fun _ _ _ _ => ⟨rfl, trees, rfl⟩
  | .either nodes alternate, offset, trace, trace', state, trees => by
      rw [Sequence.renumber, Sequence.walk_either, Sequence.walk_either]
      exact (Node.walkAll_renumberAll heedless nodes offset trace trace' state trees).orElse
        fun _ _ state _ => Sequence.walk_renumber heedless alternate offset trace trace' state trees

end

/-- Sequences that are the same but for the numbers of their groups walk alike. -/
theorem Sequence.walk_of_unnumbered_eq {setting : Setting ε σ} (heedless : setting.Heedless)
    {sequence sequence' : Sequence} (same : sequence'.unnumbered = sequence.unnumbered)
    (offset : Nat) (trace : Trace) (state : σ) :
    (sequence.walk setting offset trace state).Resembles
      (sequence'.walk setting offset trace state) := by
  have first : (sequence.walk setting offset trace state).Resembles
      (sequence.unnumbered.walk setting offset trace state) :=
    sequence.walk_renumber heedless offset trace trace state rfl
  have second : (sequence'.walk setting offset trace state).Resembles
      (sequence'.unnumbered.walk setting offset trace state) :=
    sequence'.walk_renumber heedless offset trace trace state rfl
  rw [same] at second
  exact first.trans second.symm

end TextGrammar
