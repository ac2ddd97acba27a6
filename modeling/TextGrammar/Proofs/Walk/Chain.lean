import TextGrammar.Walk.Basic

/-!
Walks put together from smaller ones.

`Walked.andThen` goes on where a walk has matched, and `Walked.orElse` tries
something else where it has failed; every other end is the end of the whole. The
equations below read the walk of a compound in these terms, so that what is to
be shown of walks is shown of the two connectives once. A repetition has one
equation for every way in which its next attempt can end.
-/

namespace TextGrammar

variable {ε σ : Type}

namespace Walked

/-- Goes on from the offset that a walk has reached, if it has matched. -/
def andThen (walked : Walked ε σ) (next : Nat → Trace → σ → Walked ε σ) : Walked ε σ :=
  match walked.outcome with
  | .reached stop => next stop walked.trace walked.state
  | _ => walked

/-- Tries something else, if a walk has failed. -/
def orElse (walked : Walked ε σ) (other : Trace → σ → Walked ε σ) : Walked ε σ :=
  match walked.outcome with
  | .failed => other walked.trace walked.state
  | _ => walked

variable {walked : Walked ε σ} {next : Nat → Trace → σ → Walked ε σ}
  {other : Trace → σ → Walked ε σ}

/-- After a walk that arrives, the rest goes on from there. -/
theorem andThen_of_reached {stop : Nat} (reached : walked.outcome = .reached stop) :
    walked.andThen next = next stop walked.trace walked.state := by
  simp only [andThen, reached]

/-- After a walk that doesn't arrive there is no rest. -/
theorem andThen_of_not_reached (stuck : ∀ stop, walked.outcome ≠ .reached stop) :
    walked.andThen next = walked := by
  unfold andThen
  split
  · exact absurd ‹_› (stuck _)
  · rfl

/-- After a walk that failed, the alternative is tried. -/
theorem orElse_of_failed (failed : walked.outcome = .failed) :
    walked.orElse other = other walked.trace walked.state := by
  simp only [orElse, failed]

/-- After a walk that didn't fail no alternative is tried. -/
theorem orElse_of_not_failed (settled : walked.outcome ≠ .failed) :
    walked.orElse other = walked := by
  unfold orElse
  split
  · exact absurd ‹_› settled
  · rfl

/-- Turns the walk of the items of a negated set around: a match fails, and a
failure ends in what the character at hand decides. -/
def negate (walked : Walked ε σ) (trace : Trace) (character : Outcome ε) : Walked ε σ :=
  match walked.outcome with
  | .reached _ => { walked with outcome := .failed, trace }
  | .failed => { walked with outcome := character }
  | _ => walked

/-- A walk that leaves the trace as it was if it fails. -/
def Tidy (trace : Trace) (walked : Walked ε σ) : Prop :=
  walked.outcome = .failed → walked.trace = trace

end Walked

section Equations

variable (setting : Setting ε σ) (offset : Nat) (trace : Trace) (state : σ)

/-- Nodes are walked one after the other. -/
theorem Node.walkAll_cons (node : Node) (nodes : List Node) :
    Node.walkAll setting (node :: nodes) offset trace state =
      (node.walk setting offset trace state).andThen fun stop trace state =>
        Node.walkAll setting nodes stop trace state := by
  cases ends : (node.walk setting offset trace state).outcome <;>
    simp only [Node.walkAll, Walked.andThen, ends]

/-- The items of a set are tried one after the other, with nothing taken back in between. -/
theorem Node.walkAny_cons (kind : Kind) (quantifier : Option Quantifier) (nodes : List Node) :
    Node.walkAny setting (⟨kind, quantifier⟩ :: nodes) offset trace state =
      (kind.walk setting offset trace state).orElse fun trace state =>
        Node.walkAny setting nodes offset trace state := by
  cases ends : (kind.walk setting offset trace state).outcome <;>
    simp only [Node.walkAny, Walked.orElse, ends]

/-- A negated set takes a character where none of its items match. -/
theorem Kind.walk_negated (items : List Node) :
    (Kind.set items true).walk setting offset trace state =
      (Node.walkAny setting items offset trace state).negate trace
        (setting.text.matchChar (fun _ => true) offset) := by
  cases ends : (Node.walkAny setting items offset trace state).outcome <;>
    simp only [Kind.walk, Walked.negate, ends]

/-- If the last alternative fails, nothing that it recorded is left. -/
theorem Sequence.walk_only (nodes : List Node) :
    (Sequence.only nodes).walk setting offset trace state =
      (Node.walkAll setting nodes offset trace state).orElse fun _ state =>
        ⟨.failed, trace, state⟩ := by
  cases ends : (Node.walkAll setting nodes offset trace state).outcome <;>
    simp only [Sequence.walk, Walked.orElse, ends]

/-- If an alternative fails, the next is tried with the trace there was before. -/
theorem Sequence.walk_either (nodes : List Node) (alternate : Sequence) :
    (Sequence.either nodes alternate).walk setting offset trace state =
      (Node.walkAll setting nodes offset trace state).orElse fun _ state =>
        alternate.walk setting offset trace state := by
  cases ends : (Node.walkAll setting nodes offset trace state).outcome <;>
    simp only [Sequence.walk, Walked.orElse, ends]

end Equations

section Repetition

variable {attempt : Nat → Trace → σ → Walked ε σ} {bounds : Quantifier}
  {quantity offset : Nat} {trace : Trace} {state : σ}

/-- The bounds allow no further attempt. -/
theorem repeatWithin_of_enough (enough : bounds.allowsMore quantity = false) (attempts : Nat) :
    repeatWithin attempt bounds attempts quantity offset trace state =
      (quantity, ⟨.reached offset, trace, state⟩) := by
  unfold repeatWithin
  simp [enough]

/-- A repetition that could go on but has no attempts left is misplaced. -/
theorem repeatWithin_zero (more : bounds.allowsMore quantity = true) :
    repeatWithin attempt bounds 0 quantity offset trace state =
      (quantity, ⟨.misplaced, trace, state⟩) := by
  rw [repeatWithin, if_pos more]

/-- An attempt that goes on in the text is followed by another. -/
theorem repeatWithin_of_reached {stop : Nat} (more : bounds.allowsMore quantity = true)
    (reached : (attempt offset trace state).outcome = .reached stop) (advances : stop ≠ offset)
    (attempts : Nat) :
    repeatWithin attempt bounds (attempts + 1) quantity offset trace state =
      repeatWithin attempt bounds attempts (quantity + 1) stop (attempt offset trace state).trace
        (attempt offset trace state).state := by
  rw [repeatWithin, if_pos more]
  simp only [reached, if_neg advances]

/-- An attempt that matches the empty text is the last. -/
theorem repeatWithin_of_empty (more : bounds.allowsMore quantity = true)
    (reached : (attempt offset trace state).outcome = .reached offset) (attempts : Nat) :
    repeatWithin attempt bounds (attempts + 1) quantity offset trace state =
      if bounds.min ≤ quantity then
        (quantity, ⟨.reached offset, trace, (attempt offset trace state).state⟩)
      else (bounds.min, attempt offset trace state) := by
  rw [repeatWithin, if_pos more]
  simp only [reached, if_true]

/-- A repetition ends where an attempt fails, without what that attempt recorded. -/
theorem repeatWithin_of_failed (more : bounds.allowsMore quantity = true)
    (failed : (attempt offset trace state).outcome = .failed) (attempts : Nat) :
    repeatWithin attempt bounds (attempts + 1) quantity offset trace state =
      (quantity, ⟨.reached offset, trace, (attempt offset trace state).state⟩) := by
  rw [repeatWithin, if_pos more]
  simp only [failed]

/-- An attempt that neither matches nor fails is the end of the walk. -/
theorem repeatWithin_of_aborted (more : bounds.allowsMore quantity = true)
    (unreached : ∀ stop, (attempt offset trace state).outcome ≠ .reached stop)
    (unfailed : (attempt offset trace state).outcome ≠ .failed) (attempts : Nat) :
    repeatWithin attempt bounds (attempts + 1) quantity offset trace state =
      (quantity, attempt offset trace state) := by
  rw [repeatWithin, if_pos more]
  simp only

/-- A repetition that didn't end is not settled. -/
theorem settleRepetition_of_not_reached {kind : Kind} {walked : Walked ε σ}
    (unreached : ∀ stop, walked.outcome ≠ .reached stop) :
    settleRepetition kind bounds offset trace quantity walked = walked := by
  unfold settleRepetition
  split
  · exact absurd ‹_› (unreached _)
  · rfl

/-- Settling a repetition changes the outcome and the trace only. -/
theorem settleRepetition_state {kind : Kind} {walked : Walked ε σ} :
    (settleRepetition kind bounds offset trace quantity walked).state = walked.state := by
  unfold settleRepetition
  split
  · split
    · rfl
    · split
      · split <;> rfl
      · rfl
  · rfl

/-- Settling a repetition lets it reach nothing that it didn't reach by itself. -/
theorem reached_of_settleRepetition {kind : Kind} {walked : Walked ε σ} {stop : Nat}
    (reached : (settleRepetition kind bounds offset trace quantity walked).outcome =
      .reached stop) : walked.outcome = .reached stop := by
  unfold settleRepetition at reached
  split at reached
  · rename_i ends
    split at reached
    · cases reached
    · split at reached
      · split at reached <;> exact reached
      · exact reached
  · exact reached

end Repetition

/-- A sequence of one node reaches what the attempts of the node reach. -/
theorem reached_of_walk_singleton {setting : Setting ε σ} {kind : Kind}
    {quantifier : Option Quantifier} {offset stop : Nat} {trace : Trace} {state : σ}
    (reached : ((Sequence.only [⟨kind, quantifier⟩]).walk setting offset trace state).outcome =
      .reached stop) :
    (repeatWithin (fun offset trace state => kind.walk setting offset trace state)
      (quantifier.getD .once) (setting.furtherAttempts offset + 1) 0 offset trace state).2.outcome =
        .reached stop := by
  rw [Sequence.walk_only, Node.walkAll_cons] at reached
  have node : (Node.walk setting ⟨kind, quantifier⟩ offset trace state).outcome =
      .reached stop := by
    cases ends : (Node.walk setting ⟨kind, quantifier⟩ offset trace state).outcome <;>
      simp_all [Walked.andThen, Walked.orElse, Node.walkAll]
  rw [Node.walk] at node
  exact reached_of_settleRepetition node

section Needed

variable {setting : Setting ε σ} {kind : Kind} {quantifier : Option Quantifier} {offset : Nat}
  {trace : Trace} {state : σ}

/-- A node that has to match, but isn't allowed to, fails. -/
theorem Node.walk_of_enough (needed : 1 ≤ (quantifier.getD .once).min)
    (enough : (quantifier.getD .once).allowsMore 0 = false) :
    Node.walk setting ⟨kind, quantifier⟩ offset trace state = ⟨.failed, trace, state⟩ := by
  rw [Node.walk]
  simp only [repeatWithin_of_enough enough, settleRepetition, if_pos (Nat.lt_of_succ_le needed)]

/-- A node that has to match fails with its first attempt. -/
theorem Node.walk_of_failed (needed : 1 ≤ (quantifier.getD .once).min)
    (more : (quantifier.getD .once).allowsMore 0 = true)
    (failed : (kind.walk setting offset trace state).outcome = .failed) :
    Node.walk setting ⟨kind, quantifier⟩ offset trace state =
      ⟨.failed, trace, (kind.walk setting offset trace state).state⟩ := by
  rw [Node.walk]
  simp only [repeatWithin_of_failed more failed, settleRepetition,
    if_pos (Nat.lt_of_succ_le needed)]

/-- A node raises what its first attempt raises. -/
theorem Node.walk_of_raised {error : ε} (more : (quantifier.getD .once).allowsMore 0 = true)
    (raised : (kind.walk setting offset trace state).outcome = .raised error) :
    Node.walk setting ⟨kind, quantifier⟩ offset trace state =
      kind.walk setting offset trace state := by
  have unreached : ∀ stop, (kind.walk setting offset trace state).outcome ≠ .reached stop := by
    simp [raised]
  have unfailed : (kind.walk setting offset trace state).outcome ≠ .failed := by simp [raised]
  rw [Node.walk]
  simp only [repeatWithin_of_aborted more unreached unfailed]
  exact settleRepetition_of_not_reached unreached

end Needed

/-! ### Tidiness -/

/-- A sequence takes its trace back when it fails. -/
theorem Sequence.walk_tidy (setting : Setting ε σ) (offset : Nat) (trace : Trace) :
    ∀ (sequence : Sequence) (state : σ), (sequence.walk setting offset trace state).Tidy trace
  | .only nodes, state => by
      intro failed
      rw [walk_only] at failed ⊢
      by_cases all : (Node.walkAll setting nodes offset trace state).outcome = .failed
      · rw [Walked.orElse_of_failed all]
      · rw [Walked.orElse_of_not_failed all] at failed
        exact absurd failed all
  | .either nodes alternate, state => by
      intro failed
      rw [walk_either] at failed ⊢
      by_cases all : (Node.walkAll setting nodes offset trace state).outcome = .failed
      · rw [Walked.orElse_of_failed all] at failed ⊢
        exact walk_tidy setting offset trace alternate _ failed
      · rw [Walked.orElse_of_not_failed all] at failed
        exact absurd failed all

/-- References take the trace back when they fail. -/
def Setting.Tidy (setting : Setting ε σ) : Prop :=
  ∀ name offset trace state, (setting.resolve name offset trace state).Tidy trace

mutual

/-- A kind takes its trace back when it fails, if references do. -/
theorem Kind.walk_tidy {setting : Setting ε σ} (tidy : setting.Tidy) (offset : Nat)
    (trace : Trace) :
    ∀ (kind : Kind) (state : σ), (kind.walk setting offset trace state).Tidy trace
  | .group _ body, state => by
      simpa only [Kind.walk] using body.walk_tidy setting offset trace state
  | .set items false, state => by
      simpa only [Kind.walk] using Node.walkAny_tidy tidy offset trace items state
  | .set items true, state => by
      rw [Kind.walk_negated]
      have items_tidy := Node.walkAny_tidy tidy offset trace items state
      unfold Walked.negate Walked.Tidy
      split
      · intro _
        rfl
      · intro _
        exact items_tidy ‹_›
      · exact items_tidy
  | .single _, _ => by simp [Kind.walk, Walked.Tidy]
  | .wordBoundary, _ => by simp [Kind.walk, Walked.Tidy]
  | .reference name, state => by simpa only [Kind.walk] using tidy name offset trace state

/-- With a tidy resolver a set that fails leaves nothing. -/
theorem Node.walkAny_tidy {setting : Setting ε σ} (tidy : setting.Tidy) (offset : Nat)
    (trace : Trace) :
    ∀ (nodes : List Node) (state : σ), (Node.walkAny setting nodes offset trace state).Tidy trace
  | [], _ => by simp [Node.walkAny, Walked.Tidy]
  | ⟨kind, quantifier⟩ :: nodes, state => by
      rw [Node.walkAny_cons]
      by_cases failed : (kind.walk setting offset trace state).outcome = .failed
      · rw [Walked.orElse_of_failed failed, kind.walk_tidy tidy offset trace state failed]
        exact Node.walkAny_tidy tidy offset trace nodes _
      · rw [Walked.orElse_of_not_failed failed]
        intro fails
        exact absurd fails failed

end

end TextGrammar
