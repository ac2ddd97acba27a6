import TextGrammar.Proofs.Walk.Concurrence

/-!
Walks that don't look at what has been recorded.

A reference that adds to the trace without a look at it ends the same way whatever has
been recorded before, and adds the same to it. Then so does every walk
(`Sequence.walk_oblivious`). It is not asked that a reference which fails adds nothing,
and what is said holds of walks that end early as well.
-/

namespace TextGrammar

variable {ε σ : Type}

/-- The walk that adds an output to a trace. -/
def Emitted.onto (emitted : Emitted ε σ) (before : Trace) : Walked ε σ :=
  ⟨emitted.outcome, before.extend emitted.output, emitted.state⟩

/-- An output added to a trace that begins with another one. -/
theorem Emitted.onto_extend (emitted : Emitted ε σ) (before : Trace) (output : Output) :
    emitted.onto (before.extend output) = (emitted.after output).onto before := by
  simp only [onto, after, Trace.extend_append]

/-- An attempt that adds the same output to every trace, however it ends. -/
def Oblivious (attempt : Trace → Walked ε σ) : Prop :=
  ∃ emitted : Emitted ε σ, ∀ before, attempt before = emitted.onto before

/-- Every reference adds an output that doesn't depend on the trace. -/
def Setting.Oblivious (setting : Setting ε σ) : Prop :=
  ∀ name offset state,
    TextGrammar.Oblivious fun before => setting.resolve name offset before state

/-! ### Records on top of others -/

/-- The trace with another one below it. -/
def Trace.above (trace before : Trace) : Trace :=
  ⟨trace.captures ++ before.captures, trace.trees ++ before.trees⟩

theorem Trace.empty_above (before : Trace) : before = Trace.above {} before := rfl

theorem framed_above (before : Trace) : Framed fun trace trace' => trace' = trace.above before := by
  rintro trace _ output rfl
  simp only [Trace.extend, Trace.above, List.append_assoc]

/-! ### Attempts -/

namespace Oblivious

variable {first : Trace → Walked ε σ}

/-- What doesn't touch the trace adds nothing. -/
theorem silent (outcome : Outcome ε) (state : σ) :
    Oblivious fun before => ⟨outcome, before, state⟩ :=
  ⟨⟨outcome, {}, state⟩, fun _ => rfl⟩

theorem andThen {next : Nat → Trace → σ → Walked ε σ} (one : Oblivious first)
    (more : ∀ stop state, Oblivious fun before => next stop before state) :
    Oblivious fun before => (first before).andThen next := by
  obtain ⟨emitted, same⟩ := one
  simp only [same]
  cases ends : emitted.outcome with
  | reached stop =>
      obtain ⟨later, goesOn⟩ := more stop emitted.state
      refine ⟨later.after emitted.output, fun before => ?_⟩
      rw [← Emitted.onto_extend, ← goesOn]
      exact Walked.andThen_of_reached ends
  | failed | raised | misplaced =>
      exact ⟨emitted, fun _ => Walked.andThen_of_not_reached (by simp [Emitted.onto, ends])⟩

theorem orElse {other : Trace → σ → Walked ε σ} (one : Oblivious first)
    (more : ∀ state, Oblivious fun before => other before state) :
    Oblivious fun before => (first before).orElse other := by
  obtain ⟨emitted, same⟩ := one
  simp only [same]
  by_cases failed : emitted.outcome = .failed
  · obtain ⟨later, goesOn⟩ := more emitted.state
    refine ⟨later.after emitted.output, fun before => ?_⟩
    rw [← Emitted.onto_extend, ← goesOn]
    exact Walked.orElse_of_failed failed
  · exact ⟨emitted, fun _ => Walked.orElse_of_not_failed failed⟩

/-- What is tried instead may as well begin with the older trace. -/
theorem orElse_entered {other : Trace → σ → Walked ε σ} (one : Oblivious first)
    (more : ∀ state, Oblivious fun before => other before state) :
    Oblivious fun before => (first before).orElse fun _ state => other before state := by
  obtain ⟨emitted, same⟩ := one
  simp only [same]
  by_cases failed : emitted.outcome = .failed
  · obtain ⟨later, goesOn⟩ := more emitted.state
    refine ⟨later, fun before => ?_⟩
    rw [← goesOn]
    exact Walked.orElse_of_failed failed
  · exact ⟨emitted, fun _ => Walked.orElse_of_not_failed failed⟩

theorem negate (one : Oblivious first) (character : Outcome ε) :
    Oblivious fun before => (first before).negate before character := by
  obtain ⟨emitted, same⟩ := one
  simp only [same, Walked.negate, Emitted.onto]
  cases ends : emitted.outcome with
  | reached stop => exact silent .failed emitted.state
  | failed => exact ⟨⟨character, emitted.output, emitted.state⟩, fun _ => rfl⟩
  | raised error => exact ⟨⟨.raised error, emitted.output, emitted.state⟩, fun _ => rfl⟩
  | misplaced => exact ⟨⟨.misplaced, emitted.output, emitted.state⟩, fun _ => rfl⟩

theorem settleRepetition (one : Oblivious first) (kind : Kind) (bounds : Quantifier)
    (offset quantity : Nat) :
    Oblivious fun before =>
      settleRepetition kind bounds offset before quantity (first before) := by
  obtain ⟨emitted, same⟩ := one
  simp only [same, TextGrammar.settleRepetition, Emitted.onto]
  cases ends : emitted.outcome with
  | reached stop =>
      by_cases few : quantity < bounds.min
      · simp only [if_pos few]
        exact silent .failed emitted.state
      · cases kind.group? with
        | none =>
            simp only [if_neg few]
            exact ⟨⟨.reached stop, emitted.output, emitted.state⟩, fun _ => rfl⟩
        | some group =>
            by_cases matched : 0 < quantity
            · simp only [if_neg few, if_pos matched]
              refine ⟨⟨.reached stop, emitted.output ++ { captures := [⟨group, offset, stop⟩] },
                emitted.state⟩, fun before => ?_⟩
              simp only [Emitted.onto, Trace.extend_append, Trace.extend_capture]
            · simp only [if_neg few, if_neg matched]
              exact ⟨⟨.reached stop, emitted.output, emitted.state⟩, fun _ => rfl⟩
  | failed => exact ⟨⟨.failed, emitted.output, emitted.state⟩, fun _ => rfl⟩
  | raised error => exact ⟨⟨.raised error, emitted.output, emitted.state⟩, fun _ => rfl⟩
  | misplaced => exact ⟨⟨.misplaced, emitted.output, emitted.state⟩, fun _ => rfl⟩

/-- An attempt that doesn't look at the trace concurs with itself. -/
theorem concurs {near : Trace → Trace → Prop} (oblivious : Oblivious first) (framed : Framed near)
    {trace trace' : Trace} (here : near trace trace') :
    (first trace).Concurs near (first trace') := by
  obtain ⟨emitted, same⟩ := oblivious
  rw [same, same]
  exact ⟨rfl, rfl, fun _ => framed _ _ emitted.output here⟩

/-- A repetition counts the same attempts, and adds what they add. -/
theorem repeatWithin {attempt : Nat → Trace → σ → Walked ε σ} (bounds : Quantifier)
    (attempted : ∀ offset state, Oblivious fun before => attempt offset before state)
    (attempts quantity offset : Nat) (state : σ) :
    ∃ (counted : Nat) (emitted : Emitted ε σ), ∀ before,
      repeatWithin attempt bounds attempts quantity offset before state =
        (counted, emitted.onto before) := by
  -- Begun with a trace it concurs with what is begun with none, and puts that on top.
  have unfailed := repeatWithin_ne_failed attempt bounds attempts quantity offset {} state
  have concurs := fun before => repeatWithin_concurs bounds
    (fun offset state {trace trace'} => (attempted offset state).concurs (framed_above before))
    attempts quantity offset state (Trace.empty_above before)
  generalize TextGrammar.repeatWithin attempt bounds attempts quantity offset {} state = alone
    at unfailed concurs
  refine ⟨alone.1, ⟨alone.2.outcome, ⟨alone.2.trace.captures.reverse,
    alone.2.trace.trees.reverse⟩, alone.2.state⟩, fun before => ?_⟩
  have same := concurs before
  generalize TextGrammar.repeatWithin attempt bounds attempts quantity offset before state = on
    at same ⊢
  obtain ⟨count, outcome, trace, after⟩ := on
  obtain ⟨rfl, rfl, rfl, above⟩ := same
  obtain rfl := above unfailed
  simp only [Emitted.onto, Trace.extend, Trace.above, List.reverse_reverse]

end Oblivious

section Walks

variable {setting : Setting ε σ}

mutual

theorem Kind.walk_oblivious (oblivious : setting.Oblivious) :
    ∀ (kind : Kind) (offset : Nat) (state : σ),
      Oblivious fun before => kind.walk setting offset before state
  | .group _ body, offset, state => by
      simp only [Kind.walk]
      exact Sequence.walk_oblivious oblivious body offset state
  | .set items false, offset, state => by
      simp only [Kind.walk]
      exact Node.walkAny_oblivious oblivious items offset state
  | .set items true, offset, state => by
      simp only [Kind.walk_negated]
      exact (Node.walkAny_oblivious oblivious items offset state).negate _
  | .single _, _, _ => by
      simp only [Kind.walk]
      exact .silent _ _
  | .wordBoundary, _, _ => by
      simp only [Kind.walk]
      exact .silent _ _
  | .reference name, offset, state => by
      simp only [Kind.walk]
      exact oblivious name offset state

theorem Node.walk_oblivious (oblivious : setting.Oblivious) :
    ∀ (node : Node) (offset : Nat) (state : σ),
      Oblivious fun before => node.walk setting offset before state
  | ⟨kind, quantifier⟩, offset, state => by
      obtain ⟨counted, repeated⟩ := Oblivious.repeatWithin (quantifier.getD .once)
        (Kind.walk_oblivious oblivious kind) (setting.furtherAttempts offset + 1) 0 offset state
      obtain ⟨emitted, same⟩ := repeated
      simp only [Node.walk, same]
      exact Oblivious.settleRepetition ⟨emitted, fun _ => rfl⟩ kind _ offset counted

theorem Node.walkAll_oblivious (oblivious : setting.Oblivious) :
    ∀ (nodes : List Node) (offset : Nat) (state : σ),
      Oblivious fun before => Node.walkAll setting nodes offset before state
  | [], offset, state => by
      simp only [Node.walkAll]
      exact .silent _ _
  | node :: nodes, offset, state => by
      simp only [Node.walkAll_cons]
      exact (Node.walk_oblivious oblivious node offset state).andThen
        (Node.walkAll_oblivious oblivious nodes)

theorem Node.walkAny_oblivious (oblivious : setting.Oblivious) :
    ∀ (nodes : List Node) (offset : Nat) (state : σ),
      Oblivious fun before => Node.walkAny setting nodes offset before state
  | [], _, _ => by
      simp only [Node.walkAny]
      exact .silent _ _
  | ⟨kind, _⟩ :: nodes, offset, state => by
      simp only [Node.walkAny_cons]
      exact (Kind.walk_oblivious oblivious kind offset state).orElse
        (Node.walkAny_oblivious oblivious nodes offset)

/-- Where no reference looks at what has been recorded before, no walk does: it adds
the same to every trace. -/
theorem Sequence.walk_oblivious (oblivious : setting.Oblivious) :
    ∀ (sequence : Sequence) (offset : Nat) (state : σ),
      Oblivious fun before => sequence.walk setting offset before state
  | .only nodes, offset, state => by
      simp only [Sequence.walk_only]
      exact (Node.walkAll_oblivious oblivious nodes offset state).orElse_entered (.silent _)
  | .either nodes alternate, offset, state => by
      simp only [Sequence.walk_either]
      exact (Node.walkAll_oblivious oblivious nodes offset state).orElse_entered
        (Sequence.walk_oblivious oblivious alternate offset)

end

end Walks

end TextGrammar
