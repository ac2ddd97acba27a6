import TextGrammar.Proofs.Walk.Oblivious
import TextGrammar.Walk.Dictionary

/-!
The calls that a walk makes.

A recording resolver does what another one does and keeps a list of the references that
it was asked for (`Setting.recording`). As the list is never looked at, the walk itself
is not changed by it (`Sequence.walk_recording`), so what the list holds in the end are
the calls of the walk, in the order in which they were made (`Sequence.calls`).
-/

namespace TextGrammar

variable {ε σ τ : Type}

/-! ### Resolvers that keep more -/

/-- The walk with a view of the resolver's state in place of the state. -/
def Walked.mapState (f : τ → σ) (walked : Walked ε τ) : Walked ε σ :=
  ⟨walked.outcome, walked.trace, f walked.state⟩

namespace Walked

variable {f : τ → σ} {walked : Walked ε τ}

/-- A map of states goes through what comes after a walk, if it does so at every stop. -/
theorem mapState_andThen {next : Nat → Trace → τ → Walked ε τ}
    {next' : Nat → Trace → σ → Walked ε σ}
    (goesOn : ∀ stop trace state, (next stop trace state).mapState f = next' stop trace (f state)) :
    (walked.andThen next).mapState f = (walked.mapState f).andThen next' := by
  obtain ⟨outcome, trace, state⟩ := walked
  cases outcome with
  | reached stop => exact goesOn stop trace state
  | failed | raised | misplaced => rfl

/-- A map of states goes through an alternative. -/
theorem mapState_orElse {other : Trace → τ → Walked ε τ} {other' : Trace → σ → Walked ε σ}
    (tries : ∀ trace state, (other trace state).mapState f = other' trace (f state)) :
    (walked.orElse other).mapState f = (walked.mapState f).orElse other' := by
  obtain ⟨outcome, trace, state⟩ := walked
  cases outcome with
  | failed => exact tries trace state
  | reached | raised | misplaced => rfl

/-- A map of states goes through the negation of a set. -/
theorem mapState_negate (trace : Trace) (character : Outcome ε) :
    (walked.negate trace character).mapState f = (walked.mapState f).negate trace character := by
  obtain ⟨outcome, after, state⟩ := walked
  cases outcome <;> rfl

/-- A map of states goes through the end of a repetition. -/
theorem mapState_settleRepetition (kind : Kind) (bounds : Quantifier) (offset : Nat)
    (entered : Trace) (quantity : Nat) :
    (settleRepetition kind bounds offset entered quantity walked).mapState f =
      settleRepetition kind bounds offset entered quantity (walked.mapState f) := by
  obtain ⟨outcome, trace, state⟩ := walked
  unfold settleRepetition
  cases outcome with
  | reached stop =>
      simp only [mapState]
      split
      · rfl
      · split
        · split <;> rfl
        · rfl
  | failed | raised | misplaced => rfl

/-- A map of states goes through every attempt of a repetition. -/
theorem mapState_repeatWithin {attempt : Nat → Trace → τ → Walked ε τ}
    {attempt' : Nat → Trace → σ → Walked ε σ} (bounds : Quantifier)
    (attempted : ∀ offset trace state,
      (attempt offset trace state).mapState f = attempt' offset trace (f state)) :
    ∀ (attempts quantity offset : Nat) (trace : Trace) (state : τ),
      (repeatWithin attempt bounds attempts quantity offset trace state).map id (mapState f) =
        repeatWithin attempt' bounds attempts quantity offset trace (f state) := by
  intro attempts
  induction attempts with
  | zero =>
      intro quantity offset trace state
      cases more : bounds.allowsMore quantity with
      | false =>
          rw [repeatWithin_of_enough more, repeatWithin_of_enough more]
          rfl
      | true =>
          rw [repeatWithin_zero more, repeatWithin_zero more]
          rfl
  | succ attempts ih =>
      intro quantity offset trace state
      cases more : bounds.allowsMore quantity with
      | false =>
          rw [repeatWithin_of_enough more, repeatWithin_of_enough more]
          rfl
      | true =>
          have same := attempted offset trace state
          cases ends : (attempt offset trace state).outcome with
          | reached stop =>
              have ends' : (attempt' offset trace (f state)).outcome = .reached stop := by
                rw [← same]
                exact ends
              by_cases empty : stop = offset
              · subst empty
                rw [repeatWithin_of_empty more ends, repeatWithin_of_empty more ends', ← same]
                split <;> rfl
              · rw [repeatWithin_of_reached more ends empty,
                  repeatWithin_of_reached more ends' empty, ← same]
                exact ih _ _ _ _
          | failed =>
              have ends' : (attempt' offset trace (f state)).outcome = .failed := by
                rw [← same]
                exact ends
              rw [repeatWithin_of_failed more ends, repeatWithin_of_failed more ends', ← same]
              rfl
          | raised | misplaced =>
              have ends' := congrArg Walked.outcome same
              simp only [mapState, ends] at ends'
              rw [repeatWithin_of_aborted more (by simp [ends]) (by simp [ends]),
                repeatWithin_of_aborted more (by simp [← ends']) (by simp [← ends']), ← same]
              rfl

end Walked

/-- A resolver does what another one does, and keeps more. -/
def Resolver.Extends (f : τ → σ) (resolve : Resolver ε τ) (resolve' : Resolver ε σ) : Prop :=
  ∀ name offset trace state,
    (resolve name offset trace state).mapState f = resolve' name offset trace (f state)

section Walks

variable {f : τ → σ} {text : Text} {resolve : Resolver ε τ} {resolve' : Resolver ε σ}
  {furtherAttempts : Nat → Nat}

mutual

/-- If a resolver extends another one, every walk with it does so too. -/
theorem Kind.walk_mapState (keeps : Resolver.Extends f resolve resolve') :
    ∀ (kind : Kind) (offset : Nat) (trace : Trace) (state : τ),
      (kind.walk ⟨text, resolve, furtherAttempts⟩ offset trace state).mapState f =
        kind.walk ⟨text, resolve', furtherAttempts⟩ offset trace (f state)
  | .group _ body, offset, trace, state => by
      rw [Kind.walk, Kind.walk]
      exact Sequence.walk_mapState keeps body offset trace state
  | .set items false, offset, trace, state => by
      rw [Kind.walk, Kind.walk]
      exact Node.walkAny_mapState keeps items offset trace state
  | .set items true, offset, trace, state => by
      rw [Kind.walk_negated, Kind.walk_negated, Walked.mapState_negate,
        Node.walkAny_mapState keeps items offset trace state]
  | .single _, _, _, _ => by
      rw [Kind.walk, Kind.walk]
      rfl
  | .wordBoundary, _, _, _ => by
      rw [Kind.walk, Kind.walk]
      rfl
  | .reference name, offset, trace, state => by
      rw [Kind.walk, Kind.walk]
      exact keeps name offset trace state

theorem Node.walk_mapState (keeps : Resolver.Extends f resolve resolve') :
    ∀ (node : Node) (offset : Nat) (trace : Trace) (state : τ),
      (node.walk ⟨text, resolve, furtherAttempts⟩ offset trace state).mapState f =
        node.walk ⟨text, resolve', furtherAttempts⟩ offset trace (f state)
  | ⟨kind, quantifier⟩, offset, trace, state => by
      rw [Node.walk, Node.walk]
      simp only [← Walked.mapState_repeatWithin (quantifier.getD .once)
        (Kind.walk_mapState keeps kind), Walked.mapState_settleRepetition]
      rfl

theorem Node.walkAll_mapState (keeps : Resolver.Extends f resolve resolve') :
    ∀ (nodes : List Node) (offset : Nat) (trace : Trace) (state : τ),
      (Node.walkAll ⟨text, resolve, furtherAttempts⟩ nodes offset trace state).mapState f =
        Node.walkAll ⟨text, resolve', furtherAttempts⟩ nodes offset trace (f state)
  | [], _, _, _ => by
      rw [Node.walkAll, Node.walkAll]
      rfl
  | node :: nodes, offset, trace, state => by
      rw [Node.walkAll_cons, Node.walkAll_cons,
        Walked.mapState_andThen (Node.walkAll_mapState keeps nodes),
        Node.walk_mapState keeps node offset trace state]

theorem Node.walkAny_mapState (keeps : Resolver.Extends f resolve resolve') :
    ∀ (nodes : List Node) (offset : Nat) (trace : Trace) (state : τ),
      (Node.walkAny ⟨text, resolve, furtherAttempts⟩ nodes offset trace state).mapState f =
        Node.walkAny ⟨text, resolve', furtherAttempts⟩ nodes offset trace (f state)
  | [], _, _, _ => by
      rw [Node.walkAny, Node.walkAny]
      rfl
  | ⟨kind, _⟩ :: nodes, offset, trace, state => by
      rw [Node.walkAny_cons, Node.walkAny_cons,
        Walked.mapState_orElse (Node.walkAny_mapState keeps nodes offset),
        Kind.walk_mapState keeps kind offset trace state]

/-- What a resolver keeps more than another one is of no account to a walk. -/
theorem Sequence.walk_mapState (keeps : Resolver.Extends f resolve resolve') :
    ∀ (sequence : Sequence) (offset : Nat) (trace : Trace) (state : τ),
      (sequence.walk ⟨text, resolve, furtherAttempts⟩ offset trace state).mapState f =
        sequence.walk ⟨text, resolve', furtherAttempts⟩ offset trace (f state)
  | .only nodes, offset, trace, state => by
      rw [Sequence.walk_only, Sequence.walk_only, ← Node.walkAll_mapState keeps nodes offset trace]
      exact Walked.mapState_orElse fun _ _ => rfl
  | .either nodes alternate, offset, trace, state => by
      rw [Sequence.walk_either, Sequence.walk_either,
        ← Node.walkAll_mapState keeps nodes offset trace]
      exact Walked.mapState_orElse fun _ => Sequence.walk_mapState keeps alternate offset trace

end

end Walks

/-! ### Calls -/

/-- The setting whose resolver also keeps the calls that are made to it, the latest
call last. -/
def Setting.recording (setting : Setting ε σ) : Setting ε (σ × List Call) where
  text := setting.text
  resolve := fun name offset trace (state, calls) =>
    let walked := setting.resolve name offset trace state
    ⟨walked.outcome, walked.trace, walked.state, calls ++ [⟨name, offset⟩]⟩
  furtherAttempts := setting.furtherAttempts

/-- The calls that the walk of a node makes, in order. -/
def Node.calls (setting : Setting ε σ) (node : Node) (offset : Nat) (trace : Trace) (state : σ) :
    List Call :=
  (node.walk setting.recording offset trace (state, [])).state.2

def Sequence.calls (setting : Setting ε σ) (sequence : Sequence) (offset : Nat) (trace : Trace)
    (state : σ) : List Call :=
  (sequence.walk setting.recording offset trace (state, [])).state.2

section Recording

variable (setting : Setting ε σ)

/-- To write calls down changes nothing else of a resolver. -/
theorem Setting.extends_recording :
    Resolver.Extends Prod.fst setting.recording.resolve setting.resolve :=
  fun _ _ _ _ => rfl

/-- The walk of a node with a recorder is its walk. -/
theorem Node.walk_recording (node : Node) (offset : Nat) (trace : Trace) (state : σ)
    (calls : List Call) :
    (node.walk setting.recording offset trace (state, calls)).mapState Prod.fst =
      node.walk setting offset trace state :=
  node.walk_mapState setting.extends_recording offset trace (state, calls)

/-- The walk of a sequence with a recorder is its walk. -/
theorem Sequence.walk_recording (sequence : Sequence) (offset : Nat) (trace : Trace) (state : σ)
    (calls : List Call) :
    (sequence.walk setting.recording offset trace (state, calls)).mapState Prod.fst =
      sequence.walk setting offset trace state :=
  sequence.walk_mapState setting.extends_recording offset trace (state, calls)

end Recording

section Contracts

variable {setting : Setting ε σ}

/-- A resolver that ignores what was recorded still does when its calls are written down. -/
theorem Setting.Oblivious.recording (oblivious : setting.Oblivious) :
    setting.recording.Oblivious := by
  intro name offset state
  obtain ⟨emitted, same⟩ := oblivious name offset state.1
  simp only at same
  refine ⟨⟨emitted.outcome, emitted.output, emitted.state, state.2 ++ [⟨name, offset⟩]⟩, ?_⟩
  intro before
  simp only [Setting.recording, same]
  rfl

end Contracts

end TextGrammar
