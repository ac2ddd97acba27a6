import TextGrammar.Proofs.Walk.Transaction

/-!
Walks that cut their trace back.

`Sequence.walkMarked` has one trace only. It marks how much is recorded before
an attempt, and when it gives the attempt up it cuts the trace back to the mark.
As long as references only add to the trace, this is the same as to go on with
the trace from before the attempt (`Sequence.walkMarked_eq`).
-/

namespace TextGrammar

variable {ε σ : Type}

/-! ### Marks -/

/-- How much is recorded. -/
structure Trace.Mark where
  captures : Nat
  trees : Nat

namespace Trace

def mark (trace : Trace) : Mark :=
  ⟨trace.captures.length, trace.trees.length⟩

/-- Cuts off what has been recorded since a mark, which is the front of either
list. -/
def rollback (trace : Trace) (mark : Mark) : Trace :=
  ⟨trace.captures.drop (trace.captures.length - mark.captures),
    trace.trees.drop (trace.trees.length - mark.trees)⟩

/-- What has been added can be cut off. -/
@[simp] theorem rollback_extend (before : Trace) (output : Output) :
    (before.extend output).rollback before.mark = before := by
  have front : ∀ {α : Type} (added recorded : List α),
      (added ++ recorded).drop ((added ++ recorded).length - recorded.length) = recorded := by
    intro α added recorded
    rw [List.length_append, Nat.add_sub_cancel, List.drop_left]
  simp only [rollback, extend, mark, front]

@[simp] theorem rollback_mark (before : Trace) : before.rollback before.mark = before :=
  rollback_extend before {}

end Trace

/-! ### Walks with one trace -/

/-- Repeats an attempt as `repeatWithin` does, with a mark before each attempt. -/
def repeatMarked (attempt : Nat → Trace → σ → Walked ε σ) (bounds : Quantifier) :
    (attempts quantity offset : Nat) → Trace → σ → Nat × Walked ε σ
  | attempts, quantity, offset, trace, state =>
    if bounds.allowsMore quantity then
      match attempts with
      | 0 => (quantity, ⟨.misplaced, trace, state⟩)
      | attempts + 1 =>
        let mark := trace.mark
        let tried := attempt offset trace state
        match tried.outcome with
        | .reached stop =>
            if stop = offset then
              if bounds.min ≤ quantity then
                (quantity, ⟨.reached offset, tried.trace.rollback mark, tried.state⟩)
              else (bounds.min, tried)
            else repeatMarked attempt bounds attempts (quantity + 1) stop tried.trace tried.state
        | .failed => (quantity, ⟨.reached offset, tried.trace.rollback mark, tried.state⟩)
        | _ => (quantity, tried)
    else (quantity, ⟨.reached offset, trace, state⟩)

mutual

def Kind.walkMarked (setting : Setting ε σ) : Kind → Nat → Trace → σ → Walked ε σ
  | .group _ body, offset, trace, state => body.walkMarked setting offset trace state
  | .set items false, offset, trace, state => Node.walkAnyMarked setting items offset trace state
  | .set items true, offset, trace, state =>
      let mark := trace.mark
      let tried := Node.walkAnyMarked setting items offset trace state
      tried.negate (tried.trace.rollback mark) (setting.text.matchChar (fun _ => true) offset)
  | .single chars, offset, trace, state =>
      ⟨setting.text.matchChar chars.accepts offset, trace, state⟩
  | .wordBoundary, offset, trace, state => ⟨setting.text.matchWordBoundary offset, trace, state⟩
  | .reference name, offset, trace, state => setting.resolve name offset trace state

def Node.walkMarked (setting : Setting ε σ) : Node → Nat → Trace → σ → Walked ε σ
  | ⟨kind, quantifier⟩, offset, trace, state =>
      let bounds := quantifier.getD .once
      let mark := trace.mark
      let (quantity, walked) :=
        repeatMarked (fun offset trace state => kind.walkMarked setting offset trace state) bounds
          (setting.furtherAttempts offset + 1) 0 offset trace state
      settleRepetition kind bounds offset (walked.trace.rollback mark) quantity walked

def Node.walkAllMarked (setting : Setting ε σ) : List Node → Nat → Trace → σ → Walked ε σ
  | [], offset, trace, state => ⟨.reached offset, trace, state⟩
  | node :: nodes, offset, trace, state =>
      (node.walkMarked setting offset trace state).andThen fun stop trace state =>
        Node.walkAllMarked setting nodes stop trace state

def Node.walkAnyMarked (setting : Setting ε σ) : List Node → Nat → Trace → σ → Walked ε σ
  | [], _, trace, state => ⟨.failed, trace, state⟩
  | ⟨kind, _⟩ :: nodes, offset, trace, state =>
      (kind.walkMarked setting offset trace state).orElse fun trace state =>
        Node.walkAnyMarked setting nodes offset trace state

/-- Matches a sequence with one trace, which is cut back before the alternate. -/
def Sequence.walkMarked (setting : Setting ε σ) : Sequence → Nat → Trace → σ → Walked ε σ
  | .only nodes, offset, trace, state =>
      let mark := trace.mark
      (Node.walkAllMarked setting nodes offset trace state).orElse fun trace state =>
        ⟨.failed, trace.rollback mark, state⟩
  | .either nodes alternate, offset, trace, state =>
      let mark := trace.mark
      (Node.walkAllMarked setting nodes offset trace state).orElse fun trace state =>
        alternate.walkMarked setting offset (trace.rollback mark) state

end

/-! ### Cutting back is going on with the older trace -/

namespace Walked

variable {before : Trace} {walked : Walked ε σ} {emitted : Emitted ε σ}

/-- Where a walk has matched, the trace can be cut back to where it began. -/
theorem Adds.rollback {stop : Nat} (adds : walked.Adds before emitted)
    (reached : walked.outcome = .reached stop) : walked.trace.rollback before.mark = before := by
  rw [adds.reached stop reached, Trace.rollback_extend]

/-- Only where a walk has failed something else is tried. -/
theorem orElse_congr {one two : Trace → σ → Walked ε σ}
    (same : walked.outcome = .failed →
      one walked.trace walked.state = two walked.trace walked.state) :
    walked.orElse one = walked.orElse two := by
  by_cases failed : walked.outcome = .failed
  · rw [orElse_of_failed failed, orElse_of_failed failed, same failed]
  · rw [orElse_of_not_failed failed, orElse_of_not_failed failed]

/-- Only where the items have matched a negated set goes on with the older trace. -/
theorem negate_congr {one two : Trace} (character : Outcome ε)
    (same : ∀ stop, walked.outcome = .reached stop → one = two) :
    walked.negate one character = walked.negate two character := by
  cases ends : walked.outcome with
  | reached stop => rw [same stop ends]
  | failed | raised | misplaced => simp only [negate, ends]

end Walked

/-- Only the end of a repetition looks at the trace it was entered with. -/
theorem settleRepetition_congr {kind : Kind} {bounds : Quantifier} {offset quantity : Nat}
    {one two : Trace} {walked : Walked ε σ}
    (same : ∀ stop, walked.outcome = .reached stop → one = two) :
    settleRepetition kind bounds offset one quantity walked =
      settleRepetition kind bounds offset two quantity walked := by
  cases ends : walked.outcome with
  | reached stop => rw [same stop ends]
  | failed | raised | misplaced => simp only [settleRepetition, ends]

/-- To truncate back after an attempt that failed is to go on with the trace before it, if
attempts only add. -/
theorem repeatMarked_eq {attempt : Nat → Trace → σ → Walked ε σ}
    {attempt' : Nat → Trace → σ → Emitted ε σ} (bounds : Quantifier)
    (attempted : ∀ offset before state,
      (attempt offset before state).Records before (attempt' offset before state))
    (attempts quantity offset : Nat) (before : Trace) (state : σ) :
    repeatMarked attempt bounds attempts quantity offset before state =
      repeatWithin attempt bounds attempts quantity offset before state := by
  induction attempts generalizing quantity offset before state with
  | zero =>
      rw [repeatMarked, repeatWithin]
  | succ attempts ih =>
      have records := attempted offset before state
      rw [repeatMarked]
      cases more : bounds.allowsMore quantity with
      | false =>
          rw [repeatWithin_of_enough more]
          simp only [Bool.false_eq_true, if_false]
      | true =>
          simp only [if_true]
          cases ends : (attempt offset before state).outcome with
          | reached stop =>
              by_cases empty : stop = offset
              · subst empty
                rw [repeatWithin_of_empty more ends]
                simp only [if_true, records.toAdds.rollback ends]
              · rw [repeatWithin_of_reached more ends empty]
                simp only [if_neg empty]
                exact ih _ _ _ _
          | failed =>
              -- A failed attempt has tidied up already, so cutting back changes nothing.
              rw [repeatWithin_of_failed more ends]
              simp only [records.failed ends, Trace.rollback_mark]
          | raised | misplaced =>
              rw [repeatWithin_of_aborted more (by simp [ends]) (by simp [ends])]

section Walks

variable {setting : Setting ε σ}

/-- Nodes of which one has failed leave what those before it have added. -/
theorem Node.walkAll_extends (appends : setting.Appends) :
    ∀ (nodes : List Node) (offset : Nat) (before : Trace) (state : σ),
      (Node.walkAll setting nodes offset before state).outcome = .failed →
        ∃ output, (Node.walkAll setting nodes offset before state).trace = before.extend output
  | [], _, _, _, failed => by simp [Node.walkAll] at failed
  | node :: nodes, offset, before, state, failed => by
      rw [Node.walkAll_cons] at failed ⊢
      have records := Node.walk_records appends node offset before state
      cases ends : (node.walk setting offset before state).outcome with
      | reached stop =>
          rw [Walked.andThen_of_reached ends, records.reached stop ends] at failed ⊢
          obtain ⟨output, trace⟩ := Node.walkAll_extends appends nodes stop _ _ failed
          exact ⟨_, by rw [trace, ← Trace.extend_append]⟩
      | failed =>
          rw [Walked.andThen_of_not_reached (by simp [ends]), records.failed ends]
          exact ⟨{}, rfl⟩
      | raised | misplaced =>
          rw [Walked.andThen_of_not_reached (by simp [ends])] at failed
          cases ends.symm.trans failed

mutual

theorem Kind.walkMarked_eq (appends : setting.Appends) :
    ∀ (kind : Kind) (offset : Nat) (before : Trace) (state : σ),
      kind.walkMarked setting offset before state = kind.walk setting offset before state
  | .group _ body, offset, before, state => by
      rw [Kind.walkMarked, Kind.walk]
      exact Sequence.walkMarked_eq appends body offset before state
  | .set items false, offset, before, state => by
      rw [Kind.walkMarked, Kind.walk]
      exact Node.walkAnyMarked_eq appends items offset before state
  | .set items true, offset, before, state => by
      rw [Kind.walkMarked, Kind.walk_negated, Node.walkAnyMarked_eq appends items offset before]
      apply Walked.negate_congr
      intro stop reached
      exact (Node.walkAny_adds appends items offset before state).rollback reached
  | .single _, _, _, _ => by rw [Kind.walkMarked, Kind.walk]
  | .wordBoundary, _, _, _ => by rw [Kind.walkMarked, Kind.walk]
  | .reference _, _, _, _ => by rw [Kind.walkMarked, Kind.walk]

theorem Node.walkMarked_eq (appends : setting.Appends) :
    ∀ (node : Node) (offset : Nat) (before : Trace) (state : σ),
      node.walkMarked setting offset before state = node.walk setting offset before state
  | ⟨kind, quantifier⟩, offset, before, state => by
      -- The attempts are the same function, so the two repetitions differ only in
      -- where they cut back, and the trace they leave can be cut back to the entry.
      have same : kind.walkMarked setting = kind.walk setting := by
        funext offset before state
        exact Kind.walkMarked_eq appends kind offset before state
      have marked := repeatMarked_eq (quantifier.getD .once)
        (Kind.walk_records appends kind) (setting.furtherAttempts offset + 1) 0 offset before state
      obtain ⟨_, adds⟩ := repeatWithin_adds (quantifier.getD .once)
        (Kind.walk_adds appends kind) (setting.furtherAttempts offset + 1) 0 offset before state
      simp only [Node.walkMarked, Node.walk, same, marked]
      apply settleRepetition_congr
      intro stop reached
      exact adds.rollback reached

theorem Node.walkAllMarked_eq (appends : setting.Appends) :
    ∀ (nodes : List Node) (offset : Nat) (before : Trace) (state : σ),
      Node.walkAllMarked setting nodes offset before state =
        Node.walkAll setting nodes offset before state
  | [], _, _, _ => by rw [Node.walkAllMarked, Node.walkAll]
  | node :: nodes, offset, before, state => by
      rw [Node.walkAllMarked, Node.walkAll_cons, Node.walkMarked_eq appends node offset before]
      congr 1
      funext stop before state
      exact Node.walkAllMarked_eq appends nodes stop before state

theorem Node.walkAnyMarked_eq (appends : setting.Appends) :
    ∀ (nodes : List Node) (offset : Nat) (before : Trace) (state : σ),
      Node.walkAnyMarked setting nodes offset before state =
        Node.walkAny setting nodes offset before state
  | [], _, _, _ => by rw [Node.walkAnyMarked, Node.walkAny]
  | ⟨kind, quantifier⟩ :: nodes, offset, before, state => by
      rw [Node.walkAnyMarked, Node.walkAny_cons, Kind.walkMarked_eq appends kind offset before]
      congr 1
      funext before state
      exact Node.walkAnyMarked_eq appends nodes offset before state

/-- A walk that cuts its trace back comes to the same as one that goes on with
the older trace. -/
theorem Sequence.walkMarked_eq (appends : setting.Appends) :
    ∀ (sequence : Sequence) (offset : Nat) (before : Trace) (state : σ),
      sequence.walkMarked setting offset before state = sequence.walk setting offset before state
  | .only nodes, offset, before, state => by
      rw [Sequence.walkMarked, Sequence.walk_only, Node.walkAllMarked_eq appends nodes]
      apply Walked.orElse_congr
      intro failed
      obtain ⟨output, trace⟩ := Node.walkAll_extends appends nodes offset before state failed
      rw [trace, Trace.rollback_extend]
  | .either nodes alternate, offset, before, state => by
      rw [Sequence.walkMarked, Sequence.walk_either, Node.walkAllMarked_eq appends nodes]
      apply Walked.orElse_congr
      intro failed
      obtain ⟨output, trace⟩ := Node.walkAll_extends appends nodes offset before state failed
      rw [trace, Trace.rollback_extend]
      exact Sequence.walkMarked_eq appends alternate offset before _

end

end Walks

end TextGrammar
