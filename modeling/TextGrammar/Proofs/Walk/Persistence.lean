import TextGrammar.Proofs.Walk.Chain

/-!
What a walk leaves true of the resolver's state.

A walk changes the state by resolving references only. So what every reference
leaves true, every walk does (`Sequence.walk_keeps`), whatever the text, the
offsets and the traces are.
-/

namespace TextGrammar

variable {ε σ : Type}

/-- References leave a property of the resolver's state true. -/
def Setting.Keeps (setting : Setting ε σ) (p : σ → Prop) : Prop :=
  ∀ name offset trace state, p state → p (setting.resolve name offset trace state).state

variable {p : σ → Prop} {walked : Walked ε σ}

theorem Walked.keeps_andThen {next : Nat → Trace → σ → Walked ε σ} (holds : p walked.state)
    (kept : ∀ stop trace state, p state → p (next stop trace state).state) :
    p (walked.andThen next).state := by
  cases ends : walked.outcome with
  | reached stop =>
      rw [andThen_of_reached ends]
      exact kept stop _ _ holds
  | failed | raised | misplaced =>
      rw [andThen_of_not_reached (by simp [ends])]
      exact holds

theorem Walked.keeps_orElse {other : Trace → σ → Walked ε σ} (holds : p walked.state)
    (kept : ∀ trace state, p state → p (other trace state).state) :
    p (walked.orElse other).state := by
  by_cases failed : walked.outcome = .failed
  · rw [orElse_of_failed failed]
    exact kept _ _ holds
  · rw [orElse_of_not_failed failed]
    exact holds

/-- To turn a walk around doesn't touch the state. -/
theorem Walked.state_negate (trace : Trace) (character : Outcome ε) :
    (walked.negate trace character).state = walked.state := by
  unfold negate
  split <;> rfl

theorem repeatWithin_keeps {attempt : Nat → Trace → σ → Walked ε σ} {bounds : Quantifier}
    (kept : ∀ offset trace state, p state → p (attempt offset trace state).state) :
    ∀ (attempts quantity offset : Nat) (trace : Trace) (state : σ), p state →
      p (repeatWithin attempt bounds attempts quantity offset trace state).2.state := by
  intro attempts
  induction attempts with
  | zero =>
      intro quantity offset trace state holds
      cases more : bounds.allowsMore quantity with
      | false =>
          rw [repeatWithin_of_enough more]
          exact holds
      | true =>
          rw [repeatWithin_zero more]
          exact holds
  | succ attempts ih =>
      intro quantity offset trace state holds
      have after := kept offset trace state holds
      cases more : bounds.allowsMore quantity with
      | false =>
          rw [repeatWithin_of_enough more]
          exact holds
      | true =>
          cases ends : (attempt offset trace state).outcome with
          | reached stop =>
              by_cases empty : stop = offset
              · subst empty
                rw [repeatWithin_of_empty more ends]
                split <;> exact after
              · rw [repeatWithin_of_reached more ends empty]
                exact ih _ _ _ _ after
          | failed =>
              rw [repeatWithin_of_failed more ends]
              exact after
          | raised | misplaced =>
              rw [repeatWithin_of_aborted more (by simp [ends]) (by simp [ends])]
              exact after

/-- What is true after the next attempt of a repetition is true when the repetition
ends. -/
theorem repeatWithin_keeps_attempt {attempt : Nat → Trace → σ → Walked ε σ} {bounds : Quantifier}
    {quantity offset : Nat} {trace : Trace} {state : σ}
    (more : bounds.allowsMore quantity = true)
    (kept : ∀ offset trace state, p state → p (attempt offset trace state).state)
    (holds : p (attempt offset trace state).state) (attempts : Nat) :
    p (repeatWithin attempt bounds (attempts + 1) quantity offset trace state).2.state := by
  cases ends : (attempt offset trace state).outcome with
  | reached stop =>
      by_cases empty : stop = offset
      · subst empty
        rw [repeatWithin_of_empty more ends]
        split <;> exact holds
      · rw [repeatWithin_of_reached more ends empty]
        exact repeatWithin_keeps kept _ _ _ _ _ holds
  | failed =>
      rw [repeatWithin_of_failed more ends]
      exact holds
  | raised | misplaced =>
      rw [repeatWithin_of_aborted more (by simp [ends]) (by simp [ends])]
      exact holds

mutual

theorem Kind.walk_keeps {setting : Setting ε σ} (keeps : setting.Keeps p) :
    ∀ (kind : Kind) offset trace state, p state → p (kind.walk setting offset trace state).state
  | .group _ body, offset, trace, state, holds => by
      rw [Kind.walk]
      exact Sequence.walk_keeps keeps body offset trace state holds
  | .set items false, offset, trace, state, holds => by
      rw [Kind.walk]
      exact Node.walkAny_keeps keeps items offset trace state holds
  | .set items true, offset, trace, state, holds => by
      rw [Kind.walk_negated, Walked.state_negate]
      exact Node.walkAny_keeps keeps items offset trace state holds
  | .single _, _, _, _, holds => by
      rw [Kind.walk]
      exact holds
  | .wordBoundary, _, _, _, holds => by
      rw [Kind.walk]
      exact holds
  | .reference name, offset, trace, state, holds => by
      rw [Kind.walk]
      exact keeps name offset trace state holds

theorem Node.walk_keeps {setting : Setting ε σ} (keeps : setting.Keeps p) :
    ∀ (node : Node) offset trace state, p state → p (node.walk setting offset trace state).state
  | ⟨kind, _⟩, offset, trace, state, holds => by
      simp only [Node.walk, settleRepetition_state]
      exact repeatWithin_keeps (fun offset trace state => Kind.walk_keeps keeps kind offset trace
        state) _ 0 offset trace state holds

theorem Node.walkAll_keeps {setting : Setting ε σ} (keeps : setting.Keeps p) :
    ∀ (nodes : List Node) offset trace state, p state →
      p (Node.walkAll setting nodes offset trace state).state
  | [], _, _, _, holds => by
      rw [Node.walkAll]
      exact holds
  | node :: nodes, offset, trace, state, holds => by
      rw [Node.walkAll_cons]
      exact Walked.keeps_andThen (Node.walk_keeps keeps node offset trace state holds)
        fun stop trace state => Node.walkAll_keeps keeps nodes stop trace state

theorem Node.walkAny_keeps {setting : Setting ε σ} (keeps : setting.Keeps p) :
    ∀ (nodes : List Node) offset trace state, p state →
      p (Node.walkAny setting nodes offset trace state).state
  | [], _, _, _, holds => by
      rw [Node.walkAny]
      exact holds
  | ⟨kind, _⟩ :: nodes, offset, trace, state, holds => by
      rw [Node.walkAny_cons]
      exact Walked.keeps_orElse (Kind.walk_keeps keeps kind offset trace state holds)
        fun trace state => Node.walkAny_keeps keeps nodes offset trace state

/-- A walk leaves true what references do. -/
theorem Sequence.walk_keeps {setting : Setting ε σ} (keeps : setting.Keeps p) :
    ∀ (sequence : Sequence) offset trace state, p state →
      p (sequence.walk setting offset trace state).state
  | .only nodes, offset, trace, state, holds => by
      rw [Sequence.walk_only]
      exact Walked.keeps_orElse (Node.walkAll_keeps keeps nodes offset trace state holds)
        fun _ _ holds => holds
  | .either nodes alternate, offset, trace, state, holds => by
      rw [Sequence.walk_either]
      exact Walked.keeps_orElse (Node.walkAll_keeps keeps nodes offset trace state holds)
        fun _ state => Sequence.walk_keeps keeps alternate offset trace state

end

end TextGrammar
