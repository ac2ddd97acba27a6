import TextGrammar.Proofs.Walk.Contract

/-!
The walks inside a walk.

A walk is made of smaller walks, each begun at some offset, with some trace and
in some state of the resolver. `Activation.Calls` says which ones a walk begins,
and `Repeats` where the attempts of a repetition begin, without a limit on their
number. Whatever keeps a contract goes on to keep it in every walk that is begun
(`Activation.Sound.calls`); and as each attempt but the last goes on in the text,
a repetition makes not more of them than there are bytes left, and one
(`Activation.Sound.attempts_le`). That no walk is left out is what
`Activation.walk_sequence_congr` says: a resolver may do what it likes with
references that are not reached.
-/

namespace TextGrammar

variable {ε σ : Type}

/-- After that many attempts of a repetition the next one is to begin at the
offset, with the trace and in the state. -/
inductive Repeats (attempt : Nat → Trace → σ → Walked ε σ) (bounds : Quantifier) (first : Nat)
    (entered : Trace) (before : σ) : Nat → Nat → Trace → σ → Prop where
  | start : Repeats attempt bounds first entered before 0 first entered before
  | again {quantity offset stop : Nat} {trace : Trace} {state : σ} :
      Repeats attempt bounds first entered before quantity offset trace state →
      bounds.allowsMore quantity = true →
      (attempt offset trace state).outcome = .reached stop → stop ≠ offset →
      Repeats attempt bounds first entered before (quantity + 1) stop
        (attempt offset trace state).trace (attempt offset trace state).state

/-- The attempts of a repetition are the ones that `repeatWithin` makes, as long
as it may. -/
theorem Repeats.repeatWithin_eq {attempt : Nat → Trace → σ → Walked ε σ} {bounds : Quantifier}
    {first quantity offset : Nat} {entered trace : Trace} {before state : σ}
    (repeats : Repeats attempt bounds first entered before quantity offset trace state)
    (attempts : Nat) :
    repeatWithin attempt bounds (attempts + quantity) 0 first entered before =
      repeatWithin attempt bounds attempts quantity offset trace state := by
  induction repeats generalizing attempts with
  | start => rfl
  | @again quantity offset stop trace state _ more reached advances ih =>
      rw [← repeatWithin_of_reached more reached advances, ← ih (attempts + 1),
        Nat.add_right_comm, Nat.add_assoc]

/-- What a walk may be asked to match. -/
inductive Task where
  | sequence (sequence : Sequence)
  /-- Nodes one after another. -/
  | all (nodes : List Node)
  /-- One of several nodes. -/
  | any (nodes : List Node)
  | node (node : Node)
  | kind (kind : Kind)

/-- The kinds that a walk may meet in a task. -/
def Task.kinds : Task → List Kind
  | .sequence whole => whole.visit.map Node.kind
  | .all nodes => (Node.visitAll nodes).map Node.kind
  | .any nodes => (Node.visitAll nodes).map Node.kind
  | .node inner => inner.visit.map Node.kind
  | .kind inner => inner :: inner.visit.map Node.kind

/-- A walk that is begun. -/
structure Activation (σ : Type) where
  task : Task
  offset : Nat
  trace : Trace
  state : σ

namespace Activation

/-- The walks that a walk begins by itself; a reference is left to the resolver. -/
inductive Calls (setting : Setting ε σ) : Activation σ → Activation σ → Prop where
  | nodes {sequence : Sequence} {offset : Nat} {trace : Trace} {state : σ} :
      Calls setting ⟨.sequence sequence, offset, trace, state⟩
        ⟨.all sequence.nodes, offset, trace, state⟩
  | alternate {nodes : List Node} {alternate : Sequence} {offset : Nat} {trace : Trace}
      {state : σ} : (Node.walkAll setting nodes offset trace state).outcome = .failed →
      Calls setting ⟨.sequence (.either nodes alternate), offset, trace, state⟩
        ⟨.sequence alternate, offset, trace, (Node.walkAll setting nodes offset trace state).state⟩
  | first {node : Node} {nodes : List Node} {offset : Nat} {trace : Trace} {state : σ} :
      Calls setting ⟨.all (node :: nodes), offset, trace, state⟩ ⟨.node node, offset, trace, state⟩
  | next {node : Node} {nodes : List Node} {offset stop : Nat} {trace : Trace} {state : σ} :
      (node.walk setting offset trace state).outcome = .reached stop →
      Calls setting ⟨.all (node :: nodes), offset, trace, state⟩
        ⟨.all nodes, stop, (node.walk setting offset trace state).trace,
          (node.walk setting offset trace state).state⟩
  | item {kind : Kind} {quantifier : Option Quantifier} {nodes : List Node} {offset : Nat}
      {trace : Trace} {state : σ} :
      Calls setting ⟨.any (⟨kind, quantifier⟩ :: nodes), offset, trace, state⟩
        ⟨.kind kind, offset, trace, state⟩
  | others {kind : Kind} {quantifier : Option Quantifier} {nodes : List Node} {offset : Nat}
      {trace : Trace} {state : σ} : (kind.walk setting offset trace state).outcome = .failed →
      Calls setting ⟨.any (⟨kind, quantifier⟩ :: nodes), offset, trace, state⟩
        ⟨.any nodes, offset, (kind.walk setting offset trace state).trace,
          (kind.walk setting offset trace state).state⟩
  | attempt {kind : Kind} {quantifier : Option Quantifier} {first quantity offset : Nat}
      {entered trace : Trace} {before state : σ} :
      Repeats (kind.walk setting) (quantifier.getD .once) first entered before
        quantity offset trace state →
      (quantifier.getD .once).allowsMore quantity = true →
      Calls setting ⟨.node ⟨kind, quantifier⟩, first, entered, before⟩
        ⟨.kind kind, offset, trace, state⟩
  | body {number : Nat} {body : Sequence} {offset : Nat} {trace : Trace} {state : σ} :
      Calls setting ⟨.kind (.group number body), offset, trace, state⟩
        ⟨.sequence body, offset, trace, state⟩
  | items {items : List Node} {negated : Bool} {offset : Nat} {trace : Trace} {state : σ} :
      Calls setting ⟨.kind (.set items negated), offset, trace, state⟩
        ⟨.any items, offset, trace, state⟩

/-- The walks that are begun within a walk, however deep. -/
inductive Reaches (setting : Setting ε σ) (origin : Activation σ) : Activation σ → Prop where
  | origin : Reaches setting origin origin
  | call {caller callee : Activation σ} : Reaches setting origin caller →
      Calls setting caller callee → Reaches setting origin callee

/-- The repetition of the node that is walked makes an attempt with this number,
counted from 1. -/
inductive Attempts (setting : Setting ε σ) : Activation σ → Nat → Prop where
  | attempt {kind : Kind} {quantifier : Option Quantifier} {first quantity offset : Nat}
      {entered trace : Trace} {before state : σ} :
      Repeats (kind.walk setting) (quantifier.getD .once) first entered before
        quantity offset trace state →
      (quantifier.getD .once).allowsMore quantity = true →
      Attempts setting ⟨.node ⟨kind, quantifier⟩, first, entered, before⟩ (quantity + 1)

/-- A walk meets no kind that the walk that begins it doesn't meet. -/
theorem Calls.kinds_subset {setting : Setting ε σ} {caller callee : Activation σ}
    (calls : Calls setting caller callee) : callee.task.kinds ⊆ caller.task.kinds := by
  intro kind mem
  cases calls with
  | @nodes sequence =>
      cases sequence with
      | only nodes => simpa only [Task.kinds, Sequence.visit, Sequence.nodes] using mem
      | either nodes alternate =>
          simp only [Task.kinds, Sequence.visit, List.map_append]
          exact List.mem_append_left _ mem
  | alternate _ =>
      simp only [Task.kinds, Sequence.visit, List.map_append]
      exact List.mem_append_right _ mem
  | first =>
      simp only [Task.kinds, Node.visitAll, List.map_append]
      exact List.mem_append_left _ mem
  | next _ =>
      simp only [Task.kinds, Node.visitAll, List.map_append]
      exact List.mem_append_right _ mem
  | item =>
      simp only [Task.kinds, Node.visitAll, Node.visit, List.map_append, List.map_cons]
      exact List.mem_append_left _ mem
  | others _ =>
      simp only [Task.kinds, Node.visitAll, List.map_append]
      exact List.mem_append_right _ mem
  | attempt _ _ =>
      simp only [Task.kinds, Node.visit, List.map_cons]
      exact mem
  | body =>
      simp only [Task.kinds, Kind.visit]
      exact List.mem_cons_of_mem _ mem
  | items =>
      simp only [Task.kinds, Kind.visit]
      exact List.mem_cons_of_mem _ mem

/-- What has to be true of a walk for it to keep a contract. -/
structure Sound (c : Contract ε σ) (setting : Setting ε σ) (activation : Activation σ) :
    Prop where
  meets : ∀ kind ∈ activation.task.kinds, c.meets kind
  place : setting.text.IsPlace activation.offset
  holds : c.holds activation.state

section Sound

variable {c : Contract ε σ} {setting : Setting ε σ} {kind : Kind} {quantifier : Option Quantifier}
  {nodes : List Node} {node : Node} {first offset quantity : Nat} {entered trace : Trace}
  {before state : σ}

theorem Sound.kind_met (lawful : c.Lawful setting)
    (sound : Sound c setting ⟨.kind kind, offset, trace, state⟩) :
    c.Met setting.text kind.Generates offset trace (kind.walk setting offset trace state) := by
  have allowed : c.meets kind := sound.meets kind List.mem_cons_self
  apply kind.walk_met lawful allowed ?_ offset trace state sound.place sound.holds
  intro node mem
  exact sound.meets _ (List.mem_cons_of_mem _ (List.mem_map_of_mem mem))

theorem Sound.node_met (lawful : c.Lawful setting)
    (sound : Sound c setting ⟨.node node, offset, trace, state⟩) :
    c.Met setting.text node.Generates offset trace (node.walk setting offset trace state) := by
  apply node.walk_met lawful ?_ offset trace state sound.place sound.holds
  intro inner mem
  exact sound.meets _ (List.mem_map_of_mem mem)

theorem Sound.all_met (lawful : c.Lawful setting)
    (sound : Sound c setting ⟨.all nodes, offset, trace, state⟩) :
    c.Met setting.text (Node.AllGenerate nodes) offset trace
      (Node.walkAll setting nodes offset trace state) := by
  apply Node.walkAll_met lawful nodes ?_ offset trace state sound.place sound.holds
  intro inner mem
  exact sound.meets _ (List.mem_map_of_mem mem)

/-- Where the next attempt of a repetition begins, the contract is kept, and
every attempt before it has gone on in the text. -/
theorem Sound.repeats (lawful : c.Lawful setting)
    (sound : Sound c setting ⟨.node ⟨kind, quantifier⟩, first, entered, before⟩)
    (repeats : Repeats (kind.walk setting) (quantifier.getD .once) first entered before
      quantity offset trace state) :
    Sound c setting ⟨.kind kind, offset, trace, state⟩ ∧ first + quantity ≤ offset := by
  induction repeats with
  | start => exact ⟨⟨sound.meets, sound.place, sound.holds⟩, Nat.le_refl _⟩
  | @again quantity offset stop trace state _ _ reached advances ih =>
      obtain ⟨soundHere, later⟩ := ih
      have met := soundHere.kind_met lawful
      have passage := met.reached stop reached
      have := passage.le
      exact ⟨⟨sound.meets, passage.place, met.holds⟩, by omega⟩

/-- A walk that is begun right where another one begins. -/
theorem Sound.here {caller callee : Activation σ} (sound : caller.Sound c setting)
    (calls : Calls setting caller callee) (offset : callee.offset = caller.offset)
    (state : callee.state = caller.state) : callee.Sound c setting where
  meets := fun kind mem => sound.meets kind (calls.kinds_subset mem)
  place := offset ▸ sound.place
  holds := state ▸ sound.holds

/-- A walk that keeps a contract begins only such walks. -/
theorem Sound.calls (lawful : c.Lawful setting) {caller callee : Activation σ}
    (sound : caller.Sound c setting) (calls : Calls setting caller callee) :
    callee.Sound c setting := by
  have meets : ∀ kind ∈ callee.task.kinds, c.meets kind :=
    fun kind mem => sound.meets kind (calls.kinds_subset mem)
  cases calls with
  | nodes => exact sound.here .nodes rfl rfl
  | @alternate nodes alternate offset trace state _ =>
      have begun : Calls setting ⟨.sequence (.either nodes alternate), offset, trace, state⟩
          ⟨.all nodes, offset, trace, state⟩ := .nodes
      have first := sound.here begun rfl rfl
      exact ⟨meets, sound.place, (first.all_met lawful).holds⟩
  | first => exact sound.here .first rfl rfl
  | @next node nodes offset stop trace state reached =>
      have begun : Calls setting ⟨.all (node :: nodes), offset, trace, state⟩
          ⟨.node node, offset, trace, state⟩ := .first
      have first := sound.here begun rfl rfl
      have met := first.node_met lawful
      exact ⟨meets, (met.reached stop reached).place, met.holds⟩
  | item => exact sound.here .item rfl rfl
  | @others kind quantifier nodes offset trace state _ =>
      have begun : Calls setting ⟨.any (⟨kind, quantifier⟩ :: nodes), offset, trace, state⟩
          ⟨.kind kind, offset, trace, state⟩ := .item
      have item := sound.here begun rfl rfl
      exact ⟨meets, sound.place, (item.kind_met lawful).holds⟩
  | attempt repeats _ => exact (sound.repeats lawful repeats).1
  | body => exact sound.here .body rfl rfl
  | items => exact sound.here .items rfl rfl

theorem Sound.reaches (lawful : c.Lawful setting) {origin activation : Activation σ}
    (sound : origin.Sound c setting) (reaches : Reaches setting origin activation) :
    activation.Sound c setting := by
  induction reaches with
  | origin => exact sound
  | call _ calls ih => exact ih.calls lawful calls

/-- A repetition makes not more attempts than there are bytes left where it
begins, and one. -/
theorem Sound.attempts_le (lawful : c.Lawful setting) {activation : Activation σ} {number : Nat}
    (sound : activation.Sound c setting) (attempts : activation.Attempts setting number) :
    number ≤ setting.text.size - activation.offset + 1 := by
  cases attempts with
  | @attempt kind quantifier first quantity offset entered trace before state repeats _ =>
      obtain ⟨soundHere, later⟩ := sound.repeats lawful repeats
      have inText : offset ≤ setting.text.size := soundHere.place.le_size
      simp only
      omega

end Sound

/-! ### Nothing else is called -/

/-- What a walk that begins within another reaches, the other reaches. -/
theorem Reaches.of_calls {setting : Setting ε σ} {caller callee activation : Activation σ}
    (calls : Calls setting caller callee) (reaches : Reaches setting callee activation) :
    Reaches setting caller activation := by
  induction reaches with
  | origin => exact .call .origin calls
  | call _ next ih => exact .call ih next

/-- A resolver that does the same with every reference that a walk reaches. -/
def Agree (setting : Setting ε σ) (resolve : Resolver ε σ) (origin : Activation σ) : Prop :=
  ∀ name offset trace state,
    Reaches setting origin ⟨.kind (.reference name), offset, trace, state⟩ →
    setting.resolve name offset trace state = resolve name offset trace state

section Agree

variable {setting : Setting ε σ} {resolve : Resolver ε σ}

theorem Agree.of_calls {caller callee : Activation σ} (agree : Agree setting resolve caller)
    (calls : Calls setting caller callee) : Agree setting resolve callee :=
  fun name offset trace state reaches => agree name offset trace state (reaches.of_calls calls)

/-- Repetitions are the same if all their attempts are. -/
theorem repeatWithin_congr {attempt attempt' : Nat → Trace → σ → Walked ε σ} {bounds : Quantifier}
    {first : Nat} {entered : Trace} {before : σ}
    (same : ∀ quantity offset trace state,
      Repeats attempt bounds first entered before quantity offset trace state →
      bounds.allowsMore quantity = true →
      attempt offset trace state = attempt' offset trace state) :
    ∀ (attempts quantity offset : Nat) (trace : Trace) (state : σ),
      Repeats attempt bounds first entered before quantity offset trace state →
      repeatWithin attempt bounds attempts quantity offset trace state =
        repeatWithin attempt' bounds attempts quantity offset trace state := by
  intro attempts
  induction attempts with
  | zero =>
      intro quantity offset trace state _
      cases more : bounds.allowsMore quantity with
      | false => rw [repeatWithin_of_enough more, repeatWithin_of_enough more]
      | true => rw [repeatWithin_zero more, repeatWithin_zero more]
  | succ attempts ih =>
      intro quantity offset trace state repeats
      cases more : bounds.allowsMore quantity with
      | false => rw [repeatWithin_of_enough more, repeatWithin_of_enough more]
      | true =>
          have now := same quantity offset trace state repeats more
          cases ends : (attempt offset trace state).outcome with
          | reached stop =>
              have ends' := ends
              rw [now] at ends'
              by_cases empty : stop = offset
              · subst empty
                rw [repeatWithin_of_empty more ends, repeatWithin_of_empty more ends', now]
              · rw [repeatWithin_of_reached more ends empty,
                  repeatWithin_of_reached more ends' empty, ← now]
                exact ih _ _ _ _ (.again repeats more ends empty)
          | failed =>
              have ends' := ends
              rw [now] at ends'
              rw [repeatWithin_of_failed more ends, repeatWithin_of_failed more ends', now]
          | raised | misplaced =>
              have ends' := ends
              rw [now] at ends'
              rw [repeatWithin_of_aborted more (by simp [ends]) (by simp [ends]),
                repeatWithin_of_aborted more (by simp [ends']) (by simp [ends']), now]

mutual

theorem walk_kind_congr : ∀ (kind : Kind) (offset : Nat) (trace : Trace) (state : σ),
    Agree setting resolve ⟨.kind kind, offset, trace, state⟩ →
    kind.walk setting offset trace state = kind.walk { setting with resolve } offset trace state
  | .group _ body, offset, trace, state, agree => by
      rw [Kind.walk, Kind.walk]
      exact walk_sequence_congr body offset trace state (agree.of_calls .body)
  | .set items false, offset, trace, state, agree => by
      rw [Kind.walk, Kind.walk]
      exact walkAny_congr items offset trace state (agree.of_calls .items)
  | .set items true, offset, trace, state, agree => by
      rw [Kind.walk_negated, Kind.walk_negated,
        walkAny_congr items offset trace state (agree.of_calls .items)]
  | .single _, _, _, _, _ => by rw [Kind.walk, Kind.walk]
  | .wordBoundary, _, _, _, _ => by rw [Kind.walk, Kind.walk]
  | .reference name, offset, trace, state, agree => by
      rw [Kind.walk, Kind.walk]
      exact agree name offset trace state .origin

theorem walk_node_congr : ∀ (node : Node) (offset : Nat) (trace : Trace) (state : σ),
    Agree setting resolve ⟨.node node, offset, trace, state⟩ →
    node.walk setting offset trace state = node.walk { setting with resolve } offset trace state
  | ⟨kind, quantifier⟩, offset, trace, state, agree => by
      rw [Node.walk, Node.walk]
      simp only
      rw [repeatWithin_congr (fun quantity offset trace state repeats more =>
        walk_kind_congr kind offset trace state (agree.of_calls (.attempt repeats more)))
        _ _ _ _ _ .start]

theorem walkAll_congr : ∀ (nodes : List Node) (offset : Nat) (trace : Trace) (state : σ),
    Agree setting resolve ⟨.all nodes, offset, trace, state⟩ →
    Node.walkAll setting nodes offset trace state =
      Node.walkAll { setting with resolve } nodes offset trace state
  | [], _, _, _, _ => by rw [Node.walkAll, Node.walkAll]
  | node :: nodes, offset, trace, state, agree => by
      have first := walk_node_congr node offset trace state (agree.of_calls .first)
      rw [Node.walkAll_cons, Node.walkAll_cons, ← first]
      cases ends : (node.walk setting offset trace state).outcome with
      | reached stop =>
          rw [Walked.andThen_of_reached ends, Walked.andThen_of_reached ends]
          exact walkAll_congr nodes stop _ _ (agree.of_calls (.next ends))
      | failed | raised | misplaced =>
          rw [Walked.andThen_of_not_reached (by simp [ends]),
            Walked.andThen_of_not_reached (by simp [ends])]

theorem walkAny_congr : ∀ (nodes : List Node) (offset : Nat) (trace : Trace) (state : σ),
    Agree setting resolve ⟨.any nodes, offset, trace, state⟩ →
    Node.walkAny setting nodes offset trace state =
      Node.walkAny { setting with resolve } nodes offset trace state
  | [], _, _, _, _ => by rw [Node.walkAny, Node.walkAny]
  | ⟨kind, quantifier⟩ :: nodes, offset, trace, state, agree => by
      have item := walk_kind_congr kind offset trace state (agree.of_calls .item)
      rw [Node.walkAny_cons, Node.walkAny_cons, ← item]
      by_cases failed : (kind.walk setting offset trace state).outcome = .failed
      · rw [Walked.orElse_of_failed failed, Walked.orElse_of_failed failed]
        exact walkAny_congr nodes offset _ _ (agree.of_calls (.others failed))
      · rw [Walked.orElse_of_not_failed failed, Walked.orElse_of_not_failed failed]

/-- A walk depends on its resolver by the references that it reaches only. -/
theorem walk_sequence_congr : ∀ (sequence : Sequence) (offset : Nat) (trace : Trace) (state : σ),
    Agree setting resolve ⟨.sequence sequence, offset, trace, state⟩ →
    sequence.walk setting offset trace state =
      sequence.walk { setting with resolve } offset trace state
  | .only nodes, offset, trace, state, agree => by
      rw [Sequence.walk_only, Sequence.walk_only,
        walkAll_congr nodes offset trace state (agree.of_calls .nodes)]
  | .either nodes alternate, offset, trace, state, agree => by
      have first := walkAll_congr nodes offset trace state (agree.of_calls .nodes)
      rw [Sequence.walk_either, Sequence.walk_either, ← first]
      by_cases failed : (Node.walkAll setting nodes offset trace state).outcome = .failed
      · rw [Walked.orElse_of_failed failed, Walked.orElse_of_failed failed]
        exact walk_sequence_congr alternate offset trace _ (agree.of_calls (.alternate failed))
      · rw [Walked.orElse_of_not_failed failed, Walked.orElse_of_not_failed failed]

end

end Agree

end Activation

end TextGrammar
