import TextGrammar.Proofs.Walk.Chain

/-!
Alternatives one after another.

A sequence is walked as the list of its alternatives is: the first one that matches
counts, and each is tried from the place and with the trace where the sequence was
entered (`Sequence.walk_eq_walkFirst`). So what is said of all alternatives but one
can be said of lists.
-/

namespace TextGrammar

variable {ε σ : Type}

/-- Walks the first of the alternatives that matches. -/
def Node.walkFirst (setting : Setting ε σ) : List (List Node) → Nat → Trace → σ → Walked ε σ
  | [], _, trace, state => ⟨.failed, trace, state⟩
  | nodes :: others, offset, trace, state =>
      (Node.walkAll setting nodes offset trace state).orElse fun _ state =>
        Node.walkFirst setting others offset trace state

theorem Sequence.walk_eq_walkFirst (setting : Setting ε σ) (offset : Nat) (trace : Trace) :
    ∀ (sequence : Sequence) (state : σ), sequence.walk setting offset trace state =
      Node.walkFirst setting sequence.alternatives offset trace state
  | .only nodes, state => by
      rw [Sequence.walk_only]
      rfl
  | .either nodes alternate, state => by
      rw [Sequence.walk_either, Sequence.alternatives, Node.walkFirst]
      simp only [Sequence.walk_eq_walkFirst setting offset trace alternate]

/-- The sequence without one of its alternatives; the only one stays. -/
def Sequence.without : Nat → Sequence → Sequence
  | _, .only nodes => .only nodes
  | 0, .either _ alternate => alternate
  | 1, .either nodes (.only _) => .only nodes
  | index + 1, .either nodes alternate => .either nodes (alternate.without index)

theorem Sequence.length_alternatives_pos (sequence : Sequence) :
    0 < sequence.alternatives.length := by
  cases sequence <;> simp [Sequence.alternatives]

theorem Sequence.alternatives_without : ∀ (index : Nat) (sequence : Sequence),
    index < sequence.alternatives.length → 2 ≤ sequence.alternatives.length →
      (sequence.without index).alternatives = sequence.alternatives.eraseIdx index
  | _, .only _, _, several => by simp [Sequence.alternatives] at several
  | 0, .either _ alternate, _, _ => by simp [Sequence.without, Sequence.alternatives]
  | 1, .either _ (.only _), _, _ => by simp [Sequence.without, Sequence.alternatives]
  | index + 2, .either nodes (.only other), inside, _ => by
      simp only [Sequence.alternatives, List.length_cons, List.length_nil] at inside
      omega
  | index + 1, .either nodes (.either other alternate), inside, _ => by
      have several : 2 ≤ (Sequence.either other alternate).alternatives.length :=
        Nat.succ_le_succ alternate.length_alternatives_pos
      have later := Sequence.alternatives_without index (.either other alternate)
        (Nat.lt_of_succ_lt_succ inside) several
      have step : (Sequence.either nodes (.either other alternate)).without (index + 1) =
          .either nodes ((Sequence.either other alternate).without index) := by
        rw [Sequence.without]
        rintro _ _ ⟨⟩
      rw [step, Sequence.alternatives, later]
      rfl

end TextGrammar
