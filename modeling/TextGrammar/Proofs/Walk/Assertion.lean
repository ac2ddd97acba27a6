import TextGrammar.Proofs.Walk.Contract
import TextGrammar.Proofs.Walk.Repetition

/-!
What is true where a walk stands.

An assertion speaks of the offset that a walk stands at, with the trace and the state
it has there, and of the state it leaves where it fails. It is carried on from
references to sequences (`Sequence.walk_upheld`). The walk takes an offset and a trace
back where it fails, but never the state; so a failure further on has to be as good as
one here (`Lawful.back`), and one has to be able to go on after it (`Lawful.retry`).
-/

namespace TextGrammar

variable {ε σ : Type}

/-- The kind leaves it to the references in it whether it fails. -/
def Kind.Defers : Kind → Prop
  | .group _ _ => True
  | .set items negated => items ≠ [] ∧ negated = false
  | .single _ => False
  | .wordBoundary => False
  | .reference _ => True

instance : (kind : Kind) → Decidable kind.Defers
  | .group _ _ => .isTrue trivial
  | .set items negated => inferInstanceAs (Decidable (items ≠ [] ∧ negated = false))
  | .single _ => .isFalse id
  | .wordBoundary => .isFalse id
  | .reference _ => .isTrue trivial

/-- The node fails only where something in it does. -/
structure Node.Defers (node : Node) : Prop where
  kind : node.kind.Defers
  ordered : node.bounds.Ordered

/-- What is said of walks that meet certain nodes. -/
structure Assertion (σ : Type) where
  /-- The nodes that the walks may meet. -/
  meets : Node → Prop
  /-- What is true where a walk stands. -/
  stands : Nat → Trace → σ → Prop
  /-- What is true where a walk has failed that began at an offset. -/
  fails : Nat → σ → Prop

namespace Assertion

/-- What the assertion says of one walk from an offset. If it matches, it doesn't go
back. -/
structure Upheld (a : Assertion σ) (offset : Nat) (walked : Walked ε σ) : Prop where
  reached : ∀ stop, walked.outcome = .reached stop →
    offset ≤ stop ∧ a.stands stop walked.trace walked.state
  failed : walked.outcome = .failed → a.fails offset walked.state

/-- An assertion that walks uphold when references do. -/
structure Lawful (a : Assertion σ) (setting : Setting ε σ) : Prop where
  /-- To fail further on is to fail here. -/
  back : ∀ {offset stop state}, offset ≤ stop → a.fails stop state → a.fails offset state
  /-- After a failure one stands with the older trace. -/
  retry : ∀ {offset trace before state}, a.stands offset trace before → a.fails offset state →
    a.stands offset trace state
  /-- What has matched the empty text is dropped, but not the state it leaves. -/
  drop : ∀ {offset trace after before state}, a.stands offset trace before →
    a.stands offset after state → a.stands offset trace state
  capture : ∀ {node group start stop entered trace before state}, a.meets node →
    node.kind.group? = some group → a.stands start entered before → start ≤ stop →
    a.stands stop trace state → a.stands stop (trace.addCapture ⟨group, start, stop⟩) state
  /-- A character that is matched without a reference. -/
  character : ∀ {node offset stop trace state char}, a.meets node → ¬ node.kind.Defers →
    a.stands offset trace state → setting.text.slice? offset stop = some [char] →
    a.stands stop trace state
  /-- Nothing is said of the failures of nodes that may fail by themselves. -/
  mute : ∀ {node offset state}, a.meets node → ¬ node.Defers → a.fails offset state
  reference : ∀ {node name offset trace state}, a.meets node → node.kind = .reference name →
    a.stands offset trace state → a.Upheld offset (setting.resolve name offset trace state)
  tidy : setting.Tidy

section Upheld

variable {a : Assertion σ} {offset stop : Nat} {walked : Walked ε σ}

theorem upheld_of_failed (failed : walked.outcome = .failed)
    (fails : a.fails offset walked.state) : a.Upheld offset walked where
  reached := by simp [failed]
  failed := fun _ => fails

theorem upheld_of_reached (reached : walked.outcome = .reached stop) (le : offset ≤ stop)
    (stands : a.stands stop walked.trace walked.state) : a.Upheld offset walked where
  reached := by
    intro stop' same
    cases reached.symm.trans same
    exact ⟨le, stands⟩
  failed := by simp [reached]

/-- Nothing is said of a walk that is given up. -/
theorem upheld_of_aborted (unreached : ∀ stop, walked.outcome ≠ .reached stop)
    (unfailed : walked.outcome ≠ .failed) : a.Upheld offset walked where
  reached := fun stop reached => absurd reached (unreached stop)
  failed := fun failed => absurd failed unfailed

/-- A walk that begins further on has been begun here. -/
theorem Upheld.from {setting : Setting ε σ} {start : Nat} (lawful : a.Lawful setting)
    (upheld : a.Upheld offset walked) (le : start ≤ offset) : a.Upheld start walked where
  reached := by
    intro stop reached
    obtain ⟨later, stands⟩ := upheld.reached stop reached
    exact ⟨Nat.le_trans le later, stands⟩
  failed := fun failed => lawful.back le (upheld.failed failed)

/-- Goes on where a walk has matched. -/
theorem Upheld.andThen {setting : Setting ε σ} {next : Nat → Trace → σ → Walked ε σ}
    (lawful : a.Lawful setting) (upheld : a.Upheld offset walked)
    (goesOn : ∀ stop trace state, a.stands stop trace state →
      a.Upheld stop (next stop trace state)) : a.Upheld offset (walked.andThen next) := by
  cases ends : walked.outcome with
  | reached stop =>
      obtain ⟨le, stands⟩ := upheld.reached stop ends
      rw [Walked.andThen_of_reached ends]
      exact (goesOn stop _ _ stands).from lawful le
  | failed | raised | misplaced =>
      rw [Walked.andThen_of_not_reached (by simp [ends])]
      exact upheld

/-- Tries something else where a walk has failed. -/
theorem Upheld.orElse {other : Trace → σ → Walked ε σ} (upheld : a.Upheld offset walked)
    (tries : walked.outcome = .failed → a.fails offset walked.state →
      a.Upheld offset (other walked.trace walked.state)) :
    a.Upheld offset (walked.orElse other) := by
  by_cases failed : walked.outcome = .failed
  · rw [Walked.orElse_of_failed failed]
    exact tries failed (upheld.failed failed)
  · rw [Walked.orElse_of_not_failed failed]
    exact upheld

end Upheld

end Assertion

open Assertion

section Repetition

variable {a : Assertion σ} {setting : Setting ε σ} {node : Node}
  {attempt : Nat → Trace → σ → Walked ε σ}

/-- A repetition upholds what its attempts do, and if it has matched too few times, an
attempt has failed. -/
theorem repeatWithin_upheld (lawful : a.Lawful setting) (allowed : a.meets node)
    (attempted : ∀ offset trace state, a.stands offset trace state →
      a.Upheld offset (attempt offset trace state)) :
    ∀ (attempts quantity offset : Nat) (trace : Trace) (state : σ),
      a.stands offset trace state →
      a.Upheld offset
          (repeatWithin attempt node.bounds attempts quantity offset trace state).2 ∧
        ∀ stop,
          (repeatWithin attempt node.bounds attempts quantity offset trace state).2.outcome =
            .reached stop →
          (repeatWithin attempt node.bounds attempts quantity offset trace state).1 <
            node.bounds.min →
          a.fails offset
            (repeatWithin attempt node.bounds attempts quantity offset trace state).2.state := by
  -- With ordered bounds, a repetition that has matched enough has not matched too few times.
  -- Where the bounds aren't ordered, the node may fail by itself, and nothing is said of that.
  intro attempts
  induction attempts with
  | zero =>
      intro quantity offset trace state stands
      cases more : node.bounds.allowsMore quantity with
      | false =>
          rw [repeatWithin_of_enough more]
          exact ⟨upheld_of_reached rfl (Nat.le_refl _) stands, fun _ _ few =>
            lawful.mute allowed fun defers => defers.ordered.not_lt more few⟩
      | true =>
          rw [repeatWithin_zero more]
          exact ⟨upheld_of_aborted (by simp) (by simp), by simp⟩
  | succ attempts ih =>
      intro quantity offset trace state stands
      cases more : node.bounds.allowsMore quantity with
      | false =>
          rw [repeatWithin_of_enough more]
          exact ⟨upheld_of_reached rfl (Nat.le_refl _) stands, fun _ _ few =>
            lawful.mute allowed fun defers => defers.ordered.not_lt more few⟩
      | true =>
          have upheld := attempted offset trace state stands
          cases ends : (attempt offset trace state).outcome with
          | reached stop =>
              obtain ⟨le, standsThere⟩ := upheld.reached stop ends
              by_cases empty : stop = offset
              · subst empty
                rw [repeatWithin_of_empty more ends]
                split
                · rename_i enough
                  exact ⟨upheld_of_reached rfl (Nat.le_refl _) (lawful.drop stands standsThere),
                    fun _ _ few => absurd enough (Nat.not_le_of_lt few)⟩
                · exact ⟨upheld, fun _ _ few => absurd few (Nat.lt_irrefl _)⟩
              · rw [repeatWithin_of_reached more ends empty]
                obtain ⟨later, fewer⟩ := ih (quantity + 1) stop _ _ standsThere
                exact ⟨later.from lawful le, fun last reached few =>
                  lawful.back le (fewer last reached few)⟩
          | failed =>
              have fails := upheld.failed ends
              rw [repeatWithin_of_failed more ends]
              exact ⟨upheld_of_reached rfl (Nat.le_refl _) (lawful.retry stands fails),
                fun _ _ _ => fails⟩
          | raised | misplaced =>
              rw [repeatWithin_of_aborted more (by simp [ends]) (by simp [ends])]
              exact ⟨upheld, by simp [ends]⟩

theorem settleRepetition_upheld {offset quantity : Nat} {entered : Trace} {before : σ}
    {walked : Walked ε σ} (lawful : a.Lawful setting) (allowed : a.meets node)
    (stands : a.stands offset entered before) (upheld : a.Upheld offset walked)
    (few : ∀ stop, walked.outcome = .reached stop → quantity < node.bounds.min →
      a.fails offset walked.state) :
    a.Upheld offset (settleRepetition node.kind node.bounds offset entered quantity walked) := by
  unfold settleRepetition
  split
  · rename_i stop reached
    split
    · rename_i less
      exact upheld_of_failed rfl (few stop reached less)
    · obtain ⟨le, standsThere⟩ := upheld.reached stop reached
      split
      · rename_i group numbered
        split
        · exact upheld_of_reached reached le (lawful.capture allowed numbered stands le standsThere)
        · exact upheld
      · exact upheld
  · exact upheld

end Repetition

/-! ### The walk of a sequence -/

section Walks

variable {a : Assertion σ} {setting : Setting ε σ}

/-- What is matched by a single character without a reference. -/
theorem matchChar_upheld {node : Node} {test : Char → Bool} {offset : Nat} {trace : Trace}
    {state : σ} (lawful : a.Lawful setting) (allowed : a.meets node) (alone : ¬ node.kind.Defers)
    (stands : a.stands offset trace state) :
    a.Upheld offset (⟨setting.text.matchChar test offset, trace, state⟩ : Walked ε σ) where
  reached := by
    intro stop reached
    obtain ⟨char, between, _⟩ := Text.exists_of_matchChar_eq_reached reached
    exact ⟨Text.le_of_slice? between, lawful.character allowed alone stands between⟩
  failed := fun _ => lawful.mute allowed fun defers => alone defers.kind

theorem Kind.walk_wordBoundary_upheld {node : Node} {offset : Nat} {trace : Trace} {state : σ}
    (lawful : a.Lawful setting) (allowed : a.meets node) (alone : ¬ node.kind.Defers)
    (stands : a.stands offset trace state) :
    a.Upheld offset (Kind.wordBoundary.walk setting offset trace state) where
  reached := by
    intro stop reached
    obtain rfl := Text.eq_of_matchWordBoundary_eq_reached reached
    exact ⟨Nat.le_refl _, stands⟩
  failed := fun _ => lawful.mute allowed fun defers => alone defers.kind

/-- A negated set upholds what its items do: they fail where a character is matched. -/
theorem Kind.walk_negated_upheld {node : Node} {items : List Node} {offset : Nat} {trace : Trace}
    {state : σ} (lawful : a.Lawful setting) (allowed : a.meets node)
    (same : node.kind = .set items true) (stands : a.stands offset trace state)
    (upheld : a.Upheld offset (Node.walkAny setting items offset trace state)) :
    a.Upheld offset ((Kind.set items true).walk setting offset trace state) := by
  have alone : ¬ node.kind.Defers := by
    rw [same]
    exact fun defers => Bool.noConfusion defers.2
  rw [Kind.walk_negated, Walked.negate]
  split
  · exact upheld_of_failed rfl (lawful.mute allowed fun defers => alone defers.kind)
  · rename_i failed
    rw [Node.walkAny_tidy lawful.tidy offset trace items state failed]
    exact matchChar_upheld lawful allowed alone (lawful.retry stands (upheld.failed failed))
  · exact upheld

mutual

/-- The walk of a node's kind upholds a lawful assertion that speaks of the node and
what is in it. -/
theorem Kind.walk_upheld (lawful : a.Lawful setting) :
    ∀ (kind : Kind) (quantifier : Option Quantifier),
      (∀ inner ∈ Node.visit ⟨kind, quantifier⟩, a.meets inner) →
      ∀ offset trace state, a.stands offset trace state →
        a.Upheld offset (kind.walk setting offset trace state)
  | .group number body, quantifier, meets, offset, trace, state, stands => by
      rw [Kind.walk]
      exact Sequence.walk_upheld lawful body
        (fun inner mem => meets inner (List.mem_cons_of_mem _ mem)) offset trace state stands
  | .set items false, quantifier, meets, offset, trace, state, stands => by
      rw [Kind.walk]
      refine Node.walkAny_upheld lawful items
        (fun inner mem => meets inner (List.mem_cons_of_mem _ mem)) offset trace state stands ?_
      rintro rfl
      exact lawful.mute (meets _ List.mem_cons_self) fun defers => defers.kind.1 rfl
  | .set items true, quantifier, meets, offset, trace, state, stands => by
      have allowed := meets ⟨.set items true, quantifier⟩ List.mem_cons_self
      refine Kind.walk_negated_upheld lawful allowed rfl stands ?_
      refine Node.walkAny_upheld lawful items
        (fun inner mem => meets inner (List.mem_cons_of_mem _ mem)) offset trace state stands ?_
      intro _
      exact lawful.mute allowed fun defers => Bool.noConfusion defers.kind.2
  | .single chars, quantifier, meets, offset, trace, state, stands => by
      rw [Kind.walk]
      exact matchChar_upheld lawful (meets ⟨.single chars, quantifier⟩ List.mem_cons_self) id stands
  | .wordBoundary, quantifier, meets, offset, trace, state, stands =>
      Kind.walk_wordBoundary_upheld lawful (meets ⟨.wordBoundary, quantifier⟩ List.mem_cons_self) id
        stands
  | .reference name, quantifier, meets, offset, trace, state, stands => by
      rw [Kind.walk]
      exact lawful.reference (meets ⟨.reference name, quantifier⟩ List.mem_cons_self) rfl stands

theorem Node.walk_upheld (lawful : a.Lawful setting) :
    ∀ (node : Node), (∀ inner ∈ node.visit, a.meets inner) →
      ∀ offset trace state, a.stands offset trace state →
        a.Upheld offset (node.walk setting offset trace state)
  | ⟨kind, quantifier⟩, meets, offset, trace, state, stands => by
      have allowed := meets ⟨kind, quantifier⟩ List.mem_cons_self
      obtain ⟨upheld, few⟩ := repeatWithin_upheld lawful allowed
        (fun offset trace state stands =>
          Kind.walk_upheld lawful kind quantifier meets offset trace state stands)
        (setting.furtherAttempts offset + 1) 0 offset trace state stands
      rw [Node.walk]
      exact settleRepetition_upheld lawful allowed stands upheld few

theorem Node.walkAll_upheld (lawful : a.Lawful setting) :
    ∀ (nodes : List Node), (∀ inner ∈ Node.visitAll nodes, a.meets inner) →
      ∀ offset trace state, a.stands offset trace state →
        a.Upheld offset (Node.walkAll setting nodes offset trace state)
  | [], _, offset, trace, state, stands => by
      rw [Node.walkAll]
      exact upheld_of_reached rfl (Nat.le_refl _) stands
  | node :: nodes, meets, offset, trace, state, stands => by
      rw [Node.walkAll_cons]
      exact (Node.walk_upheld lawful node
        (fun inner mem => meets inner (List.mem_append_left _ mem)) offset trace state
        stands).andThen lawful fun stop trace state => Node.walkAll_upheld lawful nodes
          (fun inner mem => meets inner (List.mem_append_right _ mem)) stop trace state

/-- Where there is nothing to try, the assertion has to hold of a failure already. -/
theorem Node.walkAny_upheld (lawful : a.Lawful setting) :
    ∀ (nodes : List Node), (∀ inner ∈ Node.visitAll nodes, a.meets inner) →
      ∀ offset trace state, a.stands offset trace state → (nodes = [] → a.fails offset state) →
        a.Upheld offset (Node.walkAny setting nodes offset trace state)
  | [], _, offset, trace, state, _, fails => by
      rw [Node.walkAny]
      exact upheld_of_failed rfl (fails rfl)
  | ⟨kind, quantifier⟩ :: nodes, meets, offset, trace, state, stands, _ => by
      rw [Node.walkAny_cons]
      have upheld := Kind.walk_upheld lawful kind quantifier
        (fun inner mem => meets inner (List.mem_append_left _ mem)) offset trace state stands
      apply upheld.orElse
      intro failed fails
      rw [Kind.walk_tidy lawful.tidy offset trace kind state failed]
      exact Node.walkAny_upheld lawful nodes
        (fun inner mem => meets inner (List.mem_append_right _ mem)) offset trace _
        (lawful.retry stands fails) fun _ => fails

/-- The walk of a sequence upholds a lawful assertion that speaks of the nodes in it. -/
theorem Sequence.walk_upheld (lawful : a.Lawful setting) :
    ∀ (sequence : Sequence), (∀ inner ∈ sequence.visit, a.meets inner) →
      ∀ offset trace state, a.stands offset trace state →
        a.Upheld offset (sequence.walk setting offset trace state)
  | .only nodes, meets, offset, trace, state, stands => by
      rw [Sequence.walk_only]
      exact (Node.walkAll_upheld lawful nodes meets offset trace state stands).orElse
        fun _ fails => upheld_of_failed rfl fails
  | .either nodes alternate, meets, offset, trace, state, stands => by
      rw [Sequence.walk_either]
      exact (Node.walkAll_upheld lawful nodes
        (fun inner mem => meets inner (List.mem_append_left _ mem)) offset trace state
        stands).orElse fun _ fails => Sequence.walk_upheld lawful alternate
          (fun inner mem => meets inner (List.mem_append_right _ mem)) offset trace _
          (lawful.retry stands fails)

end

end Walks

end TextGrammar
