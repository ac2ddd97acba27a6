import TextGrammar.Proofs.Walk.Ends
import TextGrammar.Proofs.Walk.Repetition

/-!
How many attempts are enough.

A setting says how many attempts a repetition may make, and a walk in which one would
have to go on after them comes to no end. Every other walk ends in the same way if its
repetitions may make more attempts (`Activation.walk_granted`). And a walk that comes to
no end has begun one that is stuck by itself (`Activation.exists_stuck`): it looks at the
text from an offset that is no place in it, or it asks for a reference that comes to no
end, or its repetition makes more attempts than it may. So wherever a resolver leads, a
walk whose repetitions get along with finitely many attempts ends as it does with any
number of them that is enough.
-/

namespace TextGrammar

variable {ε σ : Type}

/-! ### Walks that agree if the first comes to an end -/

/-- The full walk is this one, if this one comes to an end. -/
def Walked.Settles (walked full : Walked ε σ) : Prop :=
  walked.outcome ≠ .misplaced → full = walked

namespace Walked.Settles

variable {walked full : Walked ε σ}

theorem refl (walked : Walked ε σ) : walked.Settles walked := fun _ => rfl

/-- If a walk and what comes after it are settled alike, so is one after the other. -/
theorem andThen {next next' : Nat → Trace → σ → Walked ε σ} (settles : walked.Settles full)
    (goesOn : ∀ stop trace state, (next stop trace state).Settles (next' stop trace state)) :
    (walked.andThen next).Settles (full.andThen next') := by
  intro placed
  cases ends : walked.outcome with
  | misplaced =>
      rw [andThen_of_not_reached (by simp [ends])] at placed
      exact absurd ends placed
  | reached stop =>
      rw [andThen_of_reached ends] at placed
      rw [settles (by simp [ends]), andThen_of_reached ends, andThen_of_reached ends]
      exact goesOn stop _ _ placed
  | failed | raised =>
      rw [settles (by simp [ends]), andThen_of_not_reached (by simp [ends]),
        andThen_of_not_reached (by simp [ends])]

/-- If a walk and its alternative are settled alike, so is one instead of the other. -/
theorem orElse {other other' : Trace → σ → Walked ε σ} (settles : walked.Settles full)
    (goesOn : ∀ trace state, (other trace state).Settles (other' trace state)) :
    (walked.orElse other).Settles (full.orElse other') := by
  intro placed
  cases ends : walked.outcome with
  | misplaced =>
      rw [orElse_of_not_failed (by simp [ends])] at placed
      exact absurd ends placed
  | failed =>
      rw [orElse_of_failed ends] at placed
      rw [settles (by simp [ends]), orElse_of_failed ends, orElse_of_failed ends]
      exact goesOn _ _ placed
  | reached | raised =>
      rw [settles (by simp [ends]), orElse_of_not_failed (by simp [ends]),
        orElse_of_not_failed (by simp [ends])]

/-- A negated set is settled as its items are. -/
theorem negate (settles : walked.Settles full) (trace : Trace) (character : Outcome ε) :
    (walked.negate trace character).Settles (full.negate trace character) := by
  intro placed
  rw [settles]
  intro misplaced
  exact placed (by simp [Walked.negate, misplaced])

end Walked.Settles

/-- Settling a repetition neither brings it to an end nor keeps it from one. -/
theorem misplaced_settleRepetition_iff {kind : Kind} {bounds : Quantifier}
    {offset quantity : Nat} {trace : Trace} {walked : Walked ε σ} :
    (settleRepetition kind bounds offset trace quantity walked).outcome = .misplaced ↔
      walked.outcome = .misplaced := by
  unfold settleRepetition
  cases ends : walked.outcome with
  | reached stop =>
      simp only [reduceCtorEq, iff_false]
      split
      · simp
      · split
        · split <;> simp [ends]
        · simp [ends]
  | failed | raised | misplaced => simp [ends]

/-! ### More attempts -/

section More

variable {setting : Setting ε σ} {more : Nat → Nat}

mutual

theorem Kind.walk_settles (enough : ∀ offset, setting.furtherAttempts offset ≤ more offset) :
    ∀ (kind : Kind) (offset : Nat) (trace : Trace) (state : σ),
      (kind.walk setting offset trace state).Settles
        (kind.walk { setting with furtherAttempts := more } offset trace state)
  | .group _ body, offset, trace, state => by
      rw [Kind.walk, Kind.walk]
      exact Sequence.walk_settles enough body offset trace state
  | .set items false, offset, trace, state => by
      rw [Kind.walk, Kind.walk]
      exact Node.walkAny_settles enough items offset trace state
  | .set items true, offset, trace, state => by
      rw [Kind.walk_negated, Kind.walk_negated]
      exact (Node.walkAny_settles enough items offset trace state).negate _ _
  | .single _, _, _, _ => by
      rw [Kind.walk, Kind.walk]
      exact .refl _
  | .wordBoundary, _, _, _ => by
      rw [Kind.walk, Kind.walk]
      exact .refl _
  | .reference _, _, _, _ => by
      rw [Kind.walk, Kind.walk]
      exact .refl _

theorem Node.walk_settles (enough : ∀ offset, setting.furtherAttempts offset ≤ more offset) :
    ∀ (node : Node) (offset : Nat) (trace : Trace) (state : σ),
      (node.walk setting offset trace state).Settles
        (node.walk { setting with furtherAttempts := more } offset trace state)
  | ⟨kind, quantifier⟩, offset, trace, state => by
      intro placed
      simp only [Node.walk] at placed ⊢
      have unsettled := mt misplaced_settleRepetition_iff.mpr placed
      rw [repeatWithin_more (Kind.walk_settles enough kind) unsettled
        (Nat.succ_le_succ (enough offset))]

theorem Node.walkAll_settles (enough : ∀ offset, setting.furtherAttempts offset ≤ more offset) :
    ∀ (nodes : List Node) (offset : Nat) (trace : Trace) (state : σ),
      (Node.walkAll setting nodes offset trace state).Settles
        (Node.walkAll { setting with furtherAttempts := more } nodes offset trace state)
  | [], _, _, _ => by
      rw [Node.walkAll, Node.walkAll]
      exact .refl _
  | node :: nodes, offset, trace, state => by
      rw [Node.walkAll_cons, Node.walkAll_cons]
      exact (Node.walk_settles enough node offset trace state).andThen
        (Node.walkAll_settles enough nodes)

theorem Node.walkAny_settles (enough : ∀ offset, setting.furtherAttempts offset ≤ more offset) :
    ∀ (nodes : List Node) (offset : Nat) (trace : Trace) (state : σ),
      (Node.walkAny setting nodes offset trace state).Settles
        (Node.walkAny { setting with furtherAttempts := more } nodes offset trace state)
  | [], _, _, _ => by
      rw [Node.walkAny, Node.walkAny]
      exact .refl _
  | ⟨kind, _⟩ :: nodes, offset, trace, state => by
      rw [Node.walkAny_cons, Node.walkAny_cons]
      exact (Kind.walk_settles enough kind offset trace state).orElse
        (Node.walkAny_settles enough nodes offset)

theorem Sequence.walk_settles (enough : ∀ offset, setting.furtherAttempts offset ≤ more offset) :
    ∀ (sequence : Sequence) (offset : Nat) (trace : Trace) (state : σ),
      (sequence.walk setting offset trace state).Settles
        (sequence.walk { setting with furtherAttempts := more } offset trace state)
  | .only nodes, offset, trace, state => by
      rw [Sequence.walk_only, Sequence.walk_only]
      exact (Node.walkAll_settles enough nodes offset trace state).orElse fun _ _ => .refl _
  | .either nodes alternate, offset, trace, state => by
      rw [Sequence.walk_either, Sequence.walk_either]
      exact (Node.walkAll_settles enough nodes offset trace state).orElse fun _ =>
        Sequence.walk_settles enough alternate offset trace

end

/-- A walk that comes to an end ends in the same way if its repetitions may make more
attempts. -/
theorem Activation.walk_granted (activation : Activation σ)
    (enough : ∀ offset, setting.furtherAttempts offset ≤ more offset)
    (placed : (activation.walk setting).outcome ≠ .misplaced) :
    activation.walk { setting with furtherAttempts := more } = activation.walk setting := by
  obtain ⟨task, offset, trace, state⟩ := activation
  cases task with
  | sequence sequence => exact sequence.walk_settles enough offset trace state placed
  | all nodes => exact Node.walkAll_settles enough nodes offset trace state placed
  | any nodes => exact Node.walkAny_settles enough nodes offset trace state placed
  | node node => exact node.walk_settles enough offset trace state placed
  | kind kind => exact kind.walk_settles enough offset trace state placed

end More

/-! ### Walks that come to no end -/

section Stuck

variable {setting : Setting ε σ}

/-- A character is only ever looked for at a place. -/
theorem Text.matchChar_ne_misplaced {text : Text} {offset : Nat} (place : text.IsPlace offset)
    (test : Char → Bool) : text.matchChar (ε := ε) test offset ≠ .misplaced := by
  rcases Text.matchChar_of_isPlace (ε := ε) place test with ⟨_, reached, _⟩ | failed
  · simp [reached]
  · simp [failed]

theorem Text.matchWordBoundary_ne_misplaced {text : Text} {offset : Nat}
    (place : text.IsPlace offset) : text.matchWordBoundary (ε := ε) offset ≠ .misplaced := by
  rcases Text.matchWordBoundary_of_isPlace (ε := ε) place with reached | failed
  · simp [reached]
  · simp [failed]

/-- If a walk of two parts is misplaced, one of its parts is. -/
theorem Walked.misplaced_of_andThen {walked : Walked ε σ} {next : Nat → Trace → σ → Walked ε σ}
    (misplaced : (walked.andThen next).outcome = .misplaced) :
    walked.outcome = .misplaced ∨ ∃ stop, walked.outcome = .reached stop ∧
      (next stop walked.trace walked.state).outcome = .misplaced := by
  cases ends : walked.outcome with
  | reached stop =>
      rw [andThen_of_reached ends] at misplaced
      exact .inr ⟨stop, rfl, misplaced⟩
  | failed | raised | misplaced =>
      rw [andThen_of_not_reached (by simp [ends]), ends] at misplaced
      exact .inl misplaced

/-- If a choice is misplaced, one of the walks that it tries is. -/
theorem Walked.misplaced_of_orElse {walked : Walked ε σ} {other : Trace → σ → Walked ε σ}
    (misplaced : (walked.orElse other).outcome = .misplaced) :
    walked.outcome = .misplaced ∨
      walked.outcome = .failed ∧ (other walked.trace walked.state).outcome = .misplaced := by
  cases ends : walked.outcome with
  | failed =>
      rw [orElse_of_failed ends] at misplaced
      exact .inr ⟨rfl, misplaced⟩
  | reached | raised | misplaced =>
      rw [orElse_of_not_failed (by simp [ends]), ends] at misplaced
      exact .inl misplaced

/-- A repetition comes to no end by an attempt that comes to none, or because there is
one to make after all that it may make. -/
theorem Repeats.of_misplaced {attempt : Nat → Trace → σ → Walked ε σ} {bounds : Quantifier}
    {first : Nat} {entered : Trace} {before : σ} (attempts : Nat) :
    ∀ {quantity offset : Nat} {trace : Trace} {state : σ},
      Repeats attempt bounds first entered before quantity offset trace state →
      (repeatWithin attempt bounds attempts quantity offset trace state).2.outcome = .misplaced →
      ∃ quantity' offset' trace' state',
        Repeats attempt bounds first entered before quantity' offset' trace' state' ∧
          bounds.allowsMore quantity' = true ∧
          ((attempt offset' trace' state').outcome = .misplaced ∨
            quantity' = quantity + attempts) := by
  induction attempts with
  | zero =>
      intro quantity offset trace state repeats misplaced
      cases more : bounds.allowsMore quantity with
      | false => simp [repeatWithin_of_enough more] at misplaced
      | true => exact ⟨_, _, _, _, repeats, more, .inr rfl⟩
  | succ attempts ih =>
      intro quantity offset trace state repeats misplaced
      cases more : bounds.allowsMore quantity with
      | false => simp [repeatWithin_of_enough more] at misplaced
      | true =>
          cases ends : (attempt offset trace state).outcome with
          | reached stop =>
              by_cases empty : stop = offset
              · subst empty
                rw [repeatWithin_of_empty more ends] at misplaced
                split at misplaced <;> simp [ends] at misplaced
              · rw [repeatWithin_of_reached more ends empty] at misplaced
                obtain ⟨quantity', offset', trace', state', later, allowed, cause⟩ :=
                  ih (.again repeats more ends empty) misplaced
                refine ⟨quantity', offset', trace', state', later, allowed, cause.imp_right ?_⟩
                omega
          | failed => simp [repeatWithin_of_failed more ends] at misplaced
          | raised =>
              rw [repeatWithin_of_aborted more (by simp [ends]) (by simp [ends]), ends] at misplaced
              cases misplaced
          | misplaced => exact ⟨_, _, _, _, repeats, more, .inl ends⟩

namespace Activation

/-- A walk that comes to no end by itself. -/
inductive Stuck (setting : Setting ε σ) : Activation σ → Prop where
  /-- It looks at the text from an offset that is no place in it. -/
  | looks {kind : Kind} {offset : Nat} {trace : Trace} {state : σ} :
      kind = .wordBoundary ∨ (∃ chars, kind = .single chars) ∨
        (∃ items, kind = .set items true) →
      ¬ setting.text.IsPlace offset → Stuck setting ⟨.kind kind, offset, trace, state⟩
  /-- It asks for a reference that comes to no end. -/
  | asks {name : String} {offset : Nat} {trace : Trace} {state : σ} :
      (setting.resolve name offset trace state).outcome = .misplaced →
      Stuck setting ⟨.kind (.reference name), offset, trace, state⟩
  /-- Its repetition makes more attempts than it may. -/
  | repeats {activation : Activation σ} {number : Nat} : activation.Attempts setting number →
      setting.furtherAttempts activation.offset + 1 < number → Stuck setting activation

/-- A walk within which one that is stuck begins. -/
def Sticks (setting : Setting ε σ) (origin : Activation σ) : Prop :=
  ∃ activation, Reaches setting origin activation ∧ activation.Stuck setting

/-- What is stuck has something stuck inside it, itself. -/
theorem Stuck.sticks {activation : Activation σ} (stuck : activation.Stuck setting) :
    activation.Sticks setting :=
  ⟨activation, .origin, stuck⟩

/-- What is stuck inside a call is stuck inside the caller. -/
theorem Sticks.of_calls {caller callee : Activation σ} (sticks : callee.Sticks setting)
    (calls : Calls setting caller callee) : caller.Sticks setting := by
  obtain ⟨activation, reaches, stuck⟩ := sticks
  exact ⟨activation, reaches.of_calls calls, stuck⟩

mutual

theorem sticks_kind : ∀ (kind : Kind) (offset : Nat) (trace : Trace) (state : σ),
    (kind.walk setting offset trace state).outcome = .misplaced →
    Sticks setting ⟨.kind kind, offset, trace, state⟩
  | .group _ body, offset, trace, state, misplaced => by
      rw [Kind.walk] at misplaced
      exact (sticks_sequence body offset trace state misplaced).of_calls .body
  | .set items false, offset, trace, state, misplaced => by
      rw [Kind.walk] at misplaced
      exact (sticks_any items offset trace state misplaced).of_calls .items
  | .set items true, offset, trace, state, misplaced => by
      rw [Kind.walk_negated] at misplaced
      cases ends : (Node.walkAny setting items offset trace state).outcome with
      | reached => simp [Walked.negate, ends] at misplaced
      | failed =>
          simp only [Walked.negate, ends] at misplaced
          exact Stuck.sticks (.looks (.inr (.inr ⟨items, rfl⟩)) fun place =>
            Text.matchChar_ne_misplaced place _ misplaced)
      | raised => simp [Walked.negate, ends] at misplaced
      | misplaced => exact (sticks_any items offset trace state ends).of_calls .items
  | .single chars, offset, trace, state, misplaced => by
      rw [Kind.walk] at misplaced
      exact Stuck.sticks (.looks (.inr (.inl ⟨chars, rfl⟩)) fun place =>
        Text.matchChar_ne_misplaced place _ misplaced)
  | .wordBoundary, offset, trace, state, misplaced => by
      rw [Kind.walk] at misplaced
      exact Stuck.sticks (.looks (.inl rfl) fun place =>
        Text.matchWordBoundary_ne_misplaced place misplaced)
  | .reference name, offset, trace, state, misplaced => by
      rw [Kind.walk] at misplaced
      exact Stuck.sticks (.asks misplaced)

theorem sticks_node : ∀ (node : Node) (offset : Nat) (trace : Trace) (state : σ),
    (node.walk setting offset trace state).outcome = .misplaced →
    Sticks setting ⟨.node node, offset, trace, state⟩
  | ⟨kind, quantifier⟩, offset, trace, state, misplaced => by
      simp only [Node.walk] at misplaced
      obtain ⟨quantity, offset', trace', state', repeats, more, cause⟩ :=
        Repeats.of_misplaced _ .start (misplaced_settleRepetition_iff.mp misplaced)
      rcases cause with ends | rfl
      · exact (sticks_kind kind offset' trace' state' ends).of_calls (.attempt repeats more)
      · refine Stuck.sticks (.repeats (.attempt repeats more) ?_)
        simp only
        omega

theorem sticks_all : ∀ (nodes : List Node) (offset : Nat) (trace : Trace) (state : σ),
    (Node.walkAll setting nodes offset trace state).outcome = .misplaced →
    Sticks setting ⟨.all nodes, offset, trace, state⟩
  | [], _, _, _, misplaced => by
      rw [Node.walkAll] at misplaced
      cases misplaced
  | node :: nodes, offset, trace, state, misplaced => by
      rw [Node.walkAll_cons] at misplaced
      rcases Walked.misplaced_of_andThen misplaced with ends | ⟨stop, reached, ends⟩
      · exact (sticks_node node offset trace state ends).of_calls .first
      · exact (sticks_all nodes stop _ _ ends).of_calls (.next reached)

theorem sticks_any : ∀ (nodes : List Node) (offset : Nat) (trace : Trace) (state : σ),
    (Node.walkAny setting nodes offset trace state).outcome = .misplaced →
    Sticks setting ⟨.any nodes, offset, trace, state⟩
  | [], _, _, _, misplaced => by
      rw [Node.walkAny] at misplaced
      cases misplaced
  | ⟨kind, _⟩ :: nodes, offset, trace, state, misplaced => by
      rw [Node.walkAny_cons] at misplaced
      rcases Walked.misplaced_of_orElse misplaced with ends | ⟨failed, ends⟩
      · exact (sticks_kind kind offset trace state ends).of_calls .item
      · exact (sticks_any nodes offset _ _ ends).of_calls (.others failed)

theorem sticks_sequence : ∀ (sequence : Sequence) (offset : Nat) (trace : Trace) (state : σ),
    (sequence.walk setting offset trace state).outcome = .misplaced →
    Sticks setting ⟨.sequence sequence, offset, trace, state⟩
  | .only nodes, offset, trace, state, misplaced => by
      rw [Sequence.walk_only] at misplaced
      rcases Walked.misplaced_of_orElse misplaced with ends | ⟨_, ends⟩
      · exact (sticks_all nodes offset trace state ends).of_calls .nodes
      · cases ends
  | .either nodes alternate, offset, trace, state, misplaced => by
      rw [Sequence.walk_either] at misplaced
      rcases Walked.misplaced_of_orElse misplaced with ends | ⟨failed, ends⟩
      · exact (sticks_all nodes offset trace state ends).of_calls .nodes
      · exact (sticks_sequence alternate offset trace _ ends).of_calls (.alternate failed)

end

/-- Within a walk that comes to no end one begins that is stuck by itself. -/
theorem exists_stuck {activation : Activation σ}
    (misplaced : (activation.walk setting).outcome = .misplaced) :
    ∃ inner, Reaches setting activation inner ∧ inner.Stuck setting := by
  obtain ⟨task, offset, trace, state⟩ := activation
  cases task with
  | sequence sequence => exact sticks_sequence sequence offset trace state misplaced
  | all nodes => exact sticks_all nodes offset trace state misplaced
  | any nodes => exact sticks_any nodes offset trace state misplaced
  | node node => exact sticks_node node offset trace state misplaced
  | kind kind => exact sticks_kind kind offset trace state misplaced

end Activation

end Stuck

end TextGrammar
