import TextGrammar.Proofs.Walk.Chain

/-!
Repetitions taken apart.

What is left to match after one match of a node is the node again, with bounds that
are lower by one (`repeatWithin_rest`). How many attempts a repetition may make is of
no account as long as they are enough (`repeatWithin_more`).
-/

namespace TextGrammar

namespace Quantifier

/-- The bounds that are left after one match. -/
def rest (bounds : Quantifier) : Quantifier :=
  ⟨bounds.min - 1, bounds.max.map (· - 1)⟩

/-- The minimum isn't above the maximum. -/
def Ordered (bounds : Quantifier) : Prop :=
  ∀ max, bounds.max = some max → bounds.min ≤ max

theorem Ordered.rest {bounds : Quantifier} (ordered : bounds.Ordered) : bounds.rest.Ordered := by
  intro max lowered
  obtain ⟨most, bounded, rfl⟩ := Option.map_eq_some_iff.mp lowered
  exact Nat.sub_le_sub_right (ordered most bounded) 1

/-- Where the bounds allow no more, the minimum is reached. -/
theorem Ordered.not_lt {bounds : Quantifier} {quantity : Nat} (ordered : bounds.Ordered)
    (enough : bounds.allowsMore quantity = false) : ¬ quantity < bounds.min := by
  unfold allowsMore at enough
  split at enough
  · cases enough
  · rename_i max bounded
    have := ordered max bounded
    have := of_decide_eq_false enough
    omega

theorem allowsMore_rest (bounds : Quantifier) (quantity : Nat) :
    bounds.rest.allowsMore quantity = bounds.allowsMore (quantity + 1) := by
  cases bounded : bounds.max with
  | none => simp [rest, allowsMore, bounded]
  | some max => simp [rest, allowsMore, bounded, Nat.lt_sub_iff_add_lt]

end Quantifier

variable {ε σ : Type} {attempt : Nat → Trace → σ → Walked ε σ} {bounds : Quantifier}

/-- A repetition that gets along with the attempts it may make needs no more of them, and
attempts that come to an end wherever its own do are as good. -/
theorem repeatWithin_more {attempt' : Nat → Trace → σ → Walked ε σ}
    {attempts attempts' quantity offset : Nat} {trace : Trace} {state : σ}
    (same : ∀ offset trace state, (attempt offset trace state).outcome ≠ .misplaced →
      attempt' offset trace state = attempt offset trace state)
    (placed : (repeatWithin attempt bounds attempts quantity offset trace state).2.outcome ≠
      .misplaced) (le : attempts ≤ attempts') :
    repeatWithin attempt' bounds attempts' quantity offset trace state =
      repeatWithin attempt bounds attempts quantity offset trace state := by
  induction attempts generalizing attempts' quantity offset trace state with
  | zero =>
      cases more : bounds.allowsMore quantity with
      | false => rw [repeatWithin_of_enough more, repeatWithin_of_enough more]
      | true =>
          rw [repeatWithin_zero more] at placed
          exact absurd rfl placed
  | succ attempts ih =>
      obtain ⟨further, rfl⟩ : ∃ further, attempts' = further + 1 :=
        Nat.exists_eq_add_one_of_ne_zero (by omega)
      cases more : bounds.allowsMore quantity with
      | false => rw [repeatWithin_of_enough more, repeatWithin_of_enough more]
      | true =>
          cases ends : (attempt offset trace state).outcome with
          | misplaced =>
              rw [repeatWithin_of_aborted more (by simp [ends]) (by simp [ends])] at placed
              exact absurd ends placed
          | reached stop =>
              have now := same offset trace state (by simp [ends])
              by_cases empty : stop = offset
              · subst empty
                rw [repeatWithin_of_empty more ends, repeatWithin_of_empty more (by rw [now, ends]),
                  now]
              · rw [repeatWithin_of_reached more ends empty] at placed
                rw [repeatWithin_of_reached more ends empty,
                  repeatWithin_of_reached more (by rw [now, ends]) empty, now,
                  ih placed (Nat.le_of_succ_le_succ le)]
          | failed =>
              have now := same offset trace state (by simp [ends])
              rw [repeatWithin_of_failed more ends, repeatWithin_of_failed more (by rw [now, ends]),
                now]
          | raised =>
              have now := same offset trace state (by simp [ends])
              have ends' := ends
              rw [← now] at ends'
              rw [repeatWithin_of_aborted more (by simp [ends']) (by simp [ends']),
                repeatWithin_of_aborted more (by simp [ends]) (by simp [ends]), now]

/-- With one match made, a repetition goes on as it would from the start under the
bounds that are left. -/
theorem repeatWithin_rest (attempts quantity offset : Nat) (trace : Trace) (state : σ) :
    repeatWithin attempt bounds attempts (quantity + 1) offset trace state =
      ((repeatWithin attempt bounds.rest attempts quantity offset trace state).1 + 1,
        (repeatWithin attempt bounds.rest attempts quantity offset trace state).2) := by
  induction attempts generalizing quantity offset trace state with
  | zero =>
      have same := bounds.allowsMore_rest quantity
      cases more : bounds.allowsMore (quantity + 1) with
      | false => rw [repeatWithin_of_enough more, repeatWithin_of_enough (same.trans more)]
      | true => rw [repeatWithin_zero more, repeatWithin_zero (same.trans more)]
  | succ attempts ih =>
      have same := bounds.allowsMore_rest quantity
      cases more : bounds.allowsMore (quantity + 1) with
      | false => rw [repeatWithin_of_enough more, repeatWithin_of_enough (same.trans more)]
      | true =>
          cases ends : (attempt offset trace state).outcome with
          | reached stop =>
              by_cases empty : stop = offset
              · subst empty
                rw [repeatWithin_of_empty more ends, repeatWithin_of_empty (same.trans more) ends]
                have lowered : bounds.rest.min = bounds.min - 1 := rfl
                by_cases enough : bounds.min ≤ quantity + 1
                · rw [if_pos enough, if_pos (by omega)]
                · rw [if_neg enough, if_neg (by omega), lowered, Nat.sub_add_cancel (by omega)]
              · rw [repeatWithin_of_reached more ends empty,
                  repeatWithin_of_reached (same.trans more) ends empty, ih]
          | failed =>
              rw [repeatWithin_of_failed more ends, repeatWithin_of_failed (same.trans more) ends]
          | raised | misplaced =>
              rw [repeatWithin_of_aborted more (by simp [ends]) (by simp [ends]),
                repeatWithin_of_aborted (same.trans more) (by simp [ends]) (by simp [ends])]

end TextGrammar
