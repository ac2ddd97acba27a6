import TextGrammar.Proofs.Walk.Transaction

/-!
Walks that concur.

Two walks concur if they end alike, leave the resolver in the same state, and leave traces
that are near each other in some sense, unless they have failed. What a failure leaves
behind is left open, as sequences and repetitions go on with an older trace after it; only
a set goes on with what its last item has left. So walks concur that are put together from
walks which do (`Walked.Concurs.andThen`, `Walked.Concurs.orElse`, `Node.walk_concurs`).
-/

namespace TextGrammar

variable {ε σ : Type}

/-- Two walks that end alike, with traces near each other unless they have failed. -/
structure Walked.Concurs (near : Trace → Trace → Prop) (walked walked' : Walked ε σ) : Prop where
  outcome : walked'.outcome = walked.outcome
  state : walked'.state = walked.state
  trace : walked.outcome ≠ .failed → near walked.trace walked'.trace

/-- Traces stay near each other when the same is added to both. -/
def Framed (near : Trace → Trace → Prop) : Prop :=
  ∀ trace trace' output, near trace trace' → near (trace.extend output) (trace'.extend output)

namespace Walked.Concurs

variable {near near' : Trace → Trace → Prop} {walked walked' : Walked ε σ}

theorem refl (same : ∀ trace, near trace trace) (walked : Walked ε σ) :
    walked.Concurs near walked :=
  ⟨rfl, rfl, fun _ => same _⟩

theorem andThen {next next' : Nat → Trace → σ → Walked ε σ} (concurs : walked.Concurs near walked')
    (weaker : ∀ {trace trace'}, near trace trace' → near' trace trace')
    (goesOn : ∀ stop state {trace trace'}, near trace trace' →
      (next stop trace state).Concurs near' (next' stop trace' state)) :
    (walked.andThen next).Concurs near' (walked'.andThen next') := by
  obtain ⟨outcome, trace, state⟩ := walked
  obtain ⟨outcome', trace', state'⟩ := walked'
  obtain ⟨rfl, rfl, traces⟩ := concurs
  cases outcome' with
  | reached stop => exact goesOn stop state' (traces (by simp))
  | failed | raised | misplaced => exact ⟨rfl, rfl, fun unfailed => weaker (traces unfailed)⟩

theorem orElse {other other' : Trace → σ → Walked ε σ} (concurs : walked.Concurs near walked')
    (tries : walked.outcome = .failed →
      (other walked.trace walked.state).Concurs near (other' walked'.trace walked.state)) :
    (walked.orElse other).Concurs near (walked'.orElse other') := by
  obtain ⟨outcome, trace, state⟩ := walked
  obtain ⟨outcome', trace', state'⟩ := walked'
  obtain ⟨rfl, rfl, traces⟩ := concurs
  cases outcome' with
  | failed => exact tries rfl
  | reached | raised | misplaced => exact ⟨rfl, rfl, traces⟩

/-- Walks that take their traces back when they fail leave traces near each other in
any case. -/
theorem near_of_tidy {entered entered' : Trace} (concurs : walked.Concurs near walked')
    (tidy : walked.Tidy entered) (tidy' : walked'.Tidy entered') (here : near entered entered') :
    near walked.trace walked'.trace := by
  by_cases failed : walked.outcome = .failed
  · rw [tidy failed, tidy' (concurs.outcome.trans failed)]
    exact here
  · exact concurs.trace failed

end Walked.Concurs

/-- The trace with the capture of a kind that has matched, if it is a group. -/
def Kind.record (kind : Kind) (start stop : Nat) (trace : Trace) : Trace :=
  kind.group?.elim trace fun group => trace.addCapture ⟨group, start, stop⟩

theorem settleRepetition_of_reached (kind : Kind) (bounds : Quantifier) (offset : Nat)
    (entered : Trace) (quantity stop : Nat) (after : Trace) (state : σ) :
    settleRepetition kind bounds offset entered quantity
        (⟨.reached stop, after, state⟩ : Walked ε σ) =
      if quantity < bounds.min then ⟨.failed, entered, state⟩
      else ⟨.reached stop, if 0 < quantity then kind.record offset stop after else after,
        state⟩ := by
  unfold settleRepetition Kind.record
  cases kind.group? with
  | none => simp only [Option.elim_none, ite_self]
  | some group =>
      simp only [Option.elim_some]
      split
      · rfl
      · split <;> rfl

/-- Repetitions that concur are settled so, if it is of no account what the kinds record. -/
theorem Walked.Concurs.settle {near near' : Trace → Trace → Prop} {walked walked' : Walked ε σ}
    {kind kind' : Kind} {offset quantity : Nat} {trace trace' : Trace} (bounds : Quantifier)
    (concurs : walked.Concurs near walked')
    (weaker : ∀ {one two}, near one two → near' one two)
    (recorded : ∀ {one two} stop, near one two →
      near' (kind.record offset stop one) (kind'.record offset stop two)) :
    (settleRepetition kind bounds offset trace quantity walked).Concurs near'
      (settleRepetition kind' bounds offset trace' quantity walked') := by
  obtain ⟨outcome, after, later⟩ := walked
  obtain ⟨outcome', after', later'⟩ := walked'
  obtain ⟨rfl, rfl, traces⟩ := concurs
  cases outcome' with
  | reached stop =>
      have here : near after after' := traces (by simp)
      rw [settleRepetition_of_reached, settleRepetition_of_reached]
      split
      · exact ⟨rfl, rfl, fun unfailed => absurd rfl unfailed⟩
      · split
        · exact ⟨rfl, rfl, fun _ => recorded stop here⟩
        · exact ⟨rfl, rfl, fun _ => weaker here⟩
  | failed => exact ⟨rfl, rfl, fun unfailed => absurd rfl unfailed⟩
  | raised | misplaced => exact ⟨rfl, rfl, fun unfailed => weaker (traces unfailed)⟩

/-- Repetitions concur and count the same if their attempts concur. -/
theorem repeatWithin_concurs {near : Trace → Trace → Prop}
    {attempt attempt' : Nat → Trace → σ → Walked ε σ} (bounds : Quantifier)
    (attempted : ∀ offset state {trace trace'}, near trace trace' →
      (attempt offset trace state).Concurs near (attempt' offset trace' state)) :
    ∀ (attempts quantity offset : Nat) (state : σ) {trace trace' : Trace}, near trace trace' →
      (repeatWithin attempt' bounds attempts quantity offset trace' state).1 =
          (repeatWithin attempt bounds attempts quantity offset trace state).1 ∧
        (repeatWithin attempt bounds attempts quantity offset trace state).2.Concurs near
          (repeatWithin attempt' bounds attempts quantity offset trace' state).2 := by
  intro attempts
  induction attempts with
  | zero =>
      intro quantity offset state trace trace' here
      cases more : bounds.allowsMore quantity with
      | false =>
          rw [repeatWithin_of_enough more, repeatWithin_of_enough more]
          exact ⟨rfl, rfl, rfl, fun _ => here⟩
      | true =>
          rw [repeatWithin_zero more, repeatWithin_zero more]
          exact ⟨rfl, rfl, rfl, fun _ => here⟩
  | succ attempts ih =>
      intro quantity offset state trace trace' here
      cases more : bounds.allowsMore quantity with
      | false =>
          rw [repeatWithin_of_enough more, repeatWithin_of_enough more]
          exact ⟨rfl, rfl, rfl, fun _ => here⟩
      | true =>
          have concurs := attempted offset state here
          cases ends : (attempt offset trace state).outcome with
          | reached stop =>
              have ends' := concurs.outcome.trans ends
              by_cases empty : stop = offset
              · subst empty
                rw [repeatWithin_of_empty more ends, repeatWithin_of_empty more ends']
                split
                · exact ⟨rfl, rfl, concurs.state, fun _ => here⟩
                · exact ⟨rfl, concurs⟩
              · rw [repeatWithin_of_reached more ends empty,
                  repeatWithin_of_reached more ends' empty, concurs.state]
                exact ih _ _ _ (concurs.trace (by simp [ends]))
          | failed =>
              have ends' := concurs.outcome.trans ends
              rw [repeatWithin_of_failed more ends, repeatWithin_of_failed more ends']
              exact ⟨rfl, rfl, concurs.state, fun _ => here⟩
          | raised | misplaced =>
              have ends' := concurs.outcome.trans ends
              rw [repeatWithin_of_aborted more (by simp [ends']) (by simp [ends']),
                repeatWithin_of_aborted more (by simp [ends]) (by simp [ends])]
              exact ⟨rfl, concurs⟩

/-- Nodes under one quantifier concur if their kinds do and if it is of no account what
these record. -/
theorem Node.walk_concurs {near near' : Trace → Trace → Prop} {setting : Setting ε σ}
    {kind kind' : Kind} (quantifier : Option Quantifier)
    (attempted : ∀ offset state {trace trace'}, near trace trace' →
      (kind.walk setting offset trace state).Concurs near
        (kind'.walk setting offset trace' state))
    (weaker : ∀ {trace trace'}, near trace trace' → near' trace trace')
    (recorded : ∀ {trace trace'} start stop, near trace trace' →
      near' (kind.record start stop trace) (kind'.record start stop trace'))
    (offset : Nat) (state : σ) {trace trace' : Trace} (here : near trace trace') :
    (Node.walk setting ⟨kind, quantifier⟩ offset trace state).Concurs near'
      (Node.walk setting ⟨kind', quantifier⟩ offset trace' state) := by
  obtain ⟨counted, concurs⟩ := repeatWithin_concurs (quantifier.getD .once) attempted
    (setting.furtherAttempts offset + 1) 0 offset state here
  rw [Node.walk, Node.walk]
  simp only
  rw [counted]
  exact concurs.settle _ weaker (recorded offset)

end TextGrammar
