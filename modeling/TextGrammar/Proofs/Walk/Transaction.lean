import TextGrammar.Proofs.Walk.Chain

/-!
Walks that record nothing but what they match.

`Sequence.emit` is a walk without a trace: it returns what it matches as an
output, and an attempt that is given up has none. So nothing is ever taken back
there. `Sequence.walk_records` says that the walk with a trace comes to the same:
where it fails it leaves the trace as it was, and where it matches it adds the
output of the walk without a trace. References have to go about the trace in the
same way (`Setting.Appends`).
-/

namespace TextGrammar

variable {ε σ : Type}

/-! ### Outputs -/

/-- Captures and trees in the order in which they were matched. -/
structure Output where
  captures : List Capture := []
  trees : List ParseTree := []

namespace Output

def append (first second : Output) : Output :=
  ⟨first.captures ++ second.captures, first.trees ++ second.trees⟩

instance : Append Output := ⟨append⟩

@[simp] theorem captures_append (first second : Output) :
    (first ++ second).captures = first.captures ++ second.captures := rfl

@[simp] theorem trees_append (first second : Output) :
    (first ++ second).trees = first.trees ++ second.trees := rfl

end Output

namespace Trace

def extend (trace : Trace) (output : Output) : Trace :=
  ⟨output.captures.reverse ++ trace.captures, output.trees.reverse ++ trace.trees⟩

/-- What has been added since the trace was another one. -/
def since (trace before : Trace) : Output :=
  ⟨(trace.captures.take (trace.captures.length - before.captures.length)).reverse,
    (trace.trees.take (trace.trees.length - before.trees.length)).reverse⟩

variable (trace : Trace) (output : Output)

/-- To add nothing changes nothing. -/
@[simp] theorem extend_empty : trace.extend {} = trace := rfl

/-- Two outputs are added one after the other. -/
@[simp] theorem extend_append (first second : Output) :
    trace.extend (first ++ second) = (trace.extend first).extend second := by
  simp [extend]

/-- What has been added to a trace is what was added to it. -/
@[simp] theorem since_extend : (trace.extend output).since trace = output := by
  simp [extend, since]

@[simp] theorem extend_capture (capture : Capture) :
    trace.extend { captures := [capture] } = trace.addCapture capture := rfl

@[simp] theorem extend_tree (tree : ParseTree) :
    trace.extend { trees := [tree] } = trace.addTree tree := rfl

end Trace

/-- An attempt with its output and the state of the resolver after it. -/
structure Emitted (ε σ : Type) where
  outcome : Outcome ε
  output : Output
  state : σ

namespace Emitted

/-- An attempt with an output in front of its own. -/
def after (emitted : Emitted ε σ) (output : Output) : Emitted ε σ :=
  { emitted with output := output ++ emitted.output }

/-- Goes on where an attempt has matched, with what it has put out. -/
def andThen (emitted : Emitted ε σ) (next : Nat → Output → σ → Emitted ε σ) : Emitted ε σ :=
  match emitted.outcome with
  | .reached stop => (next stop emitted.output emitted.state).after emitted.output
  | _ => emitted

/-- Tries something else where an attempt has failed. -/
def orElse (emitted : Emitted ε σ) (other : σ → Emitted ε σ) : Emitted ε σ :=
  match emitted.outcome with
  | .failed => other emitted.state
  | _ => emitted

/-- Turns the attempt at the items of a negated set around. -/
def negate (emitted : Emitted ε σ) (character : Outcome ε) : Emitted ε σ :=
  match emitted.outcome with
  | .reached _ => ⟨.failed, {}, emitted.state⟩
  | .failed => ⟨character, {}, emitted.state⟩
  | _ => emitted

end Emitted

/-! ### Walks without a trace -/

/-- What a reference matches and puts out, when this has been recorded before. -/
def Setting.reply (setting : Setting ε σ) (name : String) (offset : Nat) (before : Trace)
    (state : σ) : Emitted ε σ :=
  let walked := setting.resolve name offset before state
  ⟨walked.outcome, walked.trace.since before, walked.state⟩

/-- Repeats an attempt as `repeatWithin` does. The output is that of the attempts
that count. -/
def emitWithin (attempt : Nat → Trace → σ → Emitted ε σ) (bounds : Quantifier) :
    (attempts quantity offset : Nat) → Trace → σ → Nat × Emitted ε σ
  | attempts, quantity, offset, before, state =>
    if bounds.allowsMore quantity then
      match attempts with
      | 0 => (quantity, ⟨.misplaced, {}, state⟩)
      | attempts + 1 =>
        let tried := attempt offset before state
        match tried.outcome with
        | .reached stop =>
            if stop = offset then
              if bounds.min ≤ quantity then (quantity, ⟨.reached offset, {}, tried.state⟩)
              else (bounds.min, tried)
            else
              let (counted, rest) := emitWithin attempt bounds attempts (quantity + 1) stop
                (before.extend tried.output) tried.state
              (counted, rest.after tried.output)
        | .failed => (quantity, ⟨.reached offset, {}, tried.state⟩)
        | _ => (quantity, tried)
    else (quantity, ⟨.reached offset, {}, state⟩)

/-- Ends a repetition: too few attempts put out nothing, and a group that matched
puts out its capture after what is inside it. -/
def emitSettled (kind : Kind) (bounds : Quantifier) (offset quantity : Nat)
    (emitted : Emitted ε σ) : Emitted ε σ :=
  match emitted.outcome with
  | .reached stop =>
      if quantity < bounds.min then ⟨.failed, {}, emitted.state⟩
      else
        match kind.group? with
        | some group =>
            if 0 < quantity then
              { emitted with output := emitted.output ++ { captures := [⟨group, offset, stop⟩] } }
            else emitted
        | none => emitted
  | _ => emitted

mutual

/-- What a kind matches once. What has been recorded before is passed on to
references, and nothing else depends on it. -/
def Kind.emit (setting : Setting ε σ) : Kind → Nat → Trace → σ → Emitted ε σ
  | .group _ body, offset, before, state => body.emit setting offset before state
  | .set items false, offset, before, state => Node.emitAny setting items offset before state
  | .set items true, offset, before, state =>
      (Node.emitAny setting items offset before state).negate
        (setting.text.matchChar (fun _ => true) offset)
  | .single chars, offset, _, state =>
      ⟨setting.text.matchChar chars.accepts offset, {}, state⟩
  | .wordBoundary, offset, _, state => ⟨setting.text.matchWordBoundary offset, {}, state⟩
  | .reference name, offset, before, state => setting.reply name offset before state

/-- What a node matches as often as its bounds ask for. -/
def Node.emit (setting : Setting ε σ) : Node → Nat → Trace → σ → Emitted ε σ
  | ⟨kind, quantifier⟩, offset, before, state =>
      let bounds := quantifier.getD .once
      let (quantity, emitted) :=
        emitWithin (fun offset before state => kind.emit setting offset before state) bounds
          (setting.furtherAttempts offset + 1) 0 offset before state
      emitSettled kind bounds offset quantity emitted

def Node.emitAll (setting : Setting ε σ) : List Node → Nat → Trace → σ → Emitted ε σ
  | [], offset, _, state => ⟨.reached offset, {}, state⟩
  | node :: nodes, offset, before, state =>
      (node.emit setting offset before state).andThen fun stop output state =>
        Node.emitAll setting nodes stop (before.extend output) state

/-- What the first of several nodes matches that matches once. -/
def Node.emitAny (setting : Setting ε σ) : List Node → Nat → Trace → σ → Emitted ε σ
  | [], _, _, state => ⟨.failed, {}, state⟩
  | ⟨kind, _⟩ :: nodes, offset, before, state =>
      (kind.emit setting offset before state).orElse fun state =>
        Node.emitAny setting nodes offset before state

def Sequence.emit (setting : Setting ε σ) : Sequence → Nat → Trace → σ → Emitted ε σ
  | .only nodes, offset, before, state =>
      (Node.emitAll setting nodes offset before state).orElse fun state => ⟨.failed, {}, state⟩
  | .either nodes alternate, offset, before, state =>
      (Node.emitAll setting nodes offset before state).orElse fun state =>
        alternate.emit setting offset before state

end

/-- A reference doesn't look at what has been recorded before. -/
def Setting.Blind (setting : Setting ε σ) : Prop :=
  ∀ name offset before before' state,
    setting.reply name offset before state = setting.reply name offset before' state

/-- A repetition puts out the same on every trace if its attempts do. -/
theorem emitWithin_blind {attempt : Nat → Trace → σ → Emitted ε σ} {bounds : Quantifier}
    (blind : ∀ offset before before' state,
      attempt offset before state = attempt offset before' state)
    (attempts quantity offset : Nat) (before before' : Trace) (state : σ) :
    emitWithin attempt bounds attempts quantity offset before state =
      emitWithin attempt bounds attempts quantity offset before' state := by
  induction attempts generalizing quantity offset before before' state with
  | zero => simp only [emitWithin]
  | succ attempts ih =>
      rw [emitWithin, emitWithin, blind offset before before' state]
      generalize attempt offset before' state = tried
      simp only [fun stop => ih (quantity + 1) stop (before.extend tried.output)
        (before'.extend tried.output)]

section Blind

variable {setting : Setting ε σ}

mutual

/-- What a kind emits doesn't depend on what was recorded before. -/
theorem Kind.emit_blind (blind : setting.Blind) :
    ∀ (kind : Kind) offset before before' state,
      kind.emit setting offset before state = kind.emit setting offset before' state
  | .group _ body, offset, before, before', state => by
      rw [Kind.emit, Kind.emit, Sequence.emit_blind blind body offset before before']
  | .set items false, offset, before, before', state => by
      rw [Kind.emit, Kind.emit, Node.emitAny_blind blind items offset before before']
  | .set items true, offset, before, before', state => by
      rw [Kind.emit, Kind.emit, Node.emitAny_blind blind items offset before before']
  | .single _, _, _, _, _ => by rw [Kind.emit, Kind.emit]
  | .wordBoundary, _, _, _, _ => by rw [Kind.emit, Kind.emit]
  | .reference name, offset, before, before', state => by
      rw [Kind.emit, Kind.emit]
      exact blind name offset before before' state

theorem Node.emit_blind (blind : setting.Blind) :
    ∀ (node : Node) offset before before' state,
      node.emit setting offset before state = node.emit setting offset before' state
  | ⟨kind, quantifier⟩, offset, before, before', state => by
      simp only [Node.emit]
      rw [emitWithin_blind (Kind.emit_blind blind kind) _ 0 offset before before' state]

theorem Node.emitAll_blind (blind : setting.Blind) :
    ∀ (nodes : List Node) offset before before' state,
      Node.emitAll setting nodes offset before state =
        Node.emitAll setting nodes offset before' state
  | [], _, _, _, _ => by rw [Node.emitAll, Node.emitAll]
  | node :: nodes, offset, before, before', state => by
      rw [Node.emitAll, Node.emitAll, Node.emit_blind blind node offset before before']
      congr 1
      funext stop output state
      exact Node.emitAll_blind blind nodes stop _ _ state

theorem Node.emitAny_blind (blind : setting.Blind) :
    ∀ (nodes : List Node) offset before before' state,
      Node.emitAny setting nodes offset before state =
        Node.emitAny setting nodes offset before' state
  | [], _, _, _, _ => by rw [Node.emitAny, Node.emitAny]
  | ⟨kind, _⟩ :: nodes, offset, before, before', state => by
      rw [Node.emitAny, Node.emitAny, Kind.emit_blind blind kind offset before before']
      congr 1
      funext state
      exact Node.emitAny_blind blind nodes offset before before' state

/-- Where no reference looks at what has been recorded before, nothing does. -/
theorem Sequence.emit_blind (blind : setting.Blind) :
    ∀ (sequence : Sequence) offset before before' state,
      sequence.emit setting offset before state = sequence.emit setting offset before' state
  | .only nodes, offset, before, before', state => by
      rw [Sequence.emit, Sequence.emit, Node.emitAll_blind blind nodes offset before before']
  | .either nodes alternate, offset, before, before', state => by
      rw [Sequence.emit, Sequence.emit, Node.emitAll_blind blind nodes offset before before']
      congr 1
      funext state
      exact Sequence.emit_blind blind alternate offset before before' state

end

end Blind

/-! ### Walks with a trace -/

/-- A reference leaves the trace as it was where it fails, and only adds to it
where it matches. -/
def Setting.Appends (setting : Setting ε σ) : Prop :=
  setting.Tidy ∧ ∀ name offset before state stop,
    (setting.resolve name offset before state).outcome = .reached stop →
      ∃ output, (setting.resolve name offset before state).trace = before.extend output

namespace Walked

/-- A walk that comes to the same as a walk without a trace and has added its
output to the trace, if it matches. -/
structure Adds (before : Trace) (emitted : Emitted ε σ) (walked : Walked ε σ) : Prop where
  outcome : walked.outcome = emitted.outcome
  state : walked.state = emitted.state
  reached : ∀ stop, walked.outcome = .reached stop → walked.trace = before.extend emitted.output

/-- A walk that adds its output to the trace if it matches, and leaves the trace
as it was if it fails. -/
structure Records (before : Trace) (emitted : Emitted ε σ) (walked : Walked ε σ) : Prop extends
    walked.Adds before emitted where
  failed : walked.outcome = .failed → walked.trace = before

variable {before : Trace} {emitted : Emitted ε σ} {walked : Walked ε σ}

/-- What has no output adds none. -/
theorem adds_of_trace_eq (outcome : walked.outcome = emitted.outcome)
    (state : walked.state = emitted.state) (trace : walked.trace = before)
    (silent : emitted.output = {}) : walked.Adds before emitted where
  outcome := outcome
  state := state
  reached := fun _ _ => by rw [trace, silent, Trace.extend_empty]

/-- A walk that goes on adds one output after another. -/
theorem Adds.andThen {next : Nat → Trace → σ → Walked ε σ} {next' : Nat → Output → σ → Emitted ε σ}
    (adds : walked.Adds before emitted)
    (goesOn : ∀ stop output state, (next stop (before.extend output) state).Adds
      (before.extend output) (next' stop output state)) :
    (walked.andThen next).Adds before (emitted.andThen next') := by
  obtain ⟨outcome, state, reached⟩ := adds
  cases ends : walked.outcome with
  | reached stop =>
      have rest := goesOn stop emitted.output emitted.state
      rw [andThen_of_reached ends, reached stop ends, state]
      rw [ends] at outcome
      simp only [Emitted.andThen, ← outcome]
      refine ⟨rest.outcome, rest.state, ?_⟩
      intro last matched
      rw [rest.reached last matched, Emitted.after, Trace.extend_append]
  | failed | raised | misplaced =>
      rw [andThen_of_not_reached (by simp [ends])]
      have same : emitted.andThen next' = emitted := by simp only [Emitted.andThen, ← outcome, ends]
      rw [same]
      exact ⟨outcome, state, by simp [ends]⟩

/-- Where a walk has failed, what is tried instead begins with the older trace. -/
theorem Adds.orElse {other : Trace → σ → Walked ε σ} {other' : σ → Emitted ε σ}
    (adds : walked.Adds before emitted)
    (tries : walked.outcome = .failed →
      (other walked.trace walked.state).Adds before (other' walked.state)) :
    (walked.orElse other).Adds before (emitted.orElse other') := by
  obtain ⟨outcome, state, reached⟩ := adds
  by_cases failed : walked.outcome = .failed
  · rw [orElse_of_failed failed]
    have same : emitted.orElse other' = other' walked.state := by
      simp only [Emitted.orElse, ← outcome, failed, state]
    rw [same]
    exact tries failed
  · rw [orElse_of_not_failed failed]
    have same : emitted.orElse other' = emitted := by
      unfold Emitted.orElse
      rw [← outcome]
      split
      · exact absurd ‹_› failed
      · rfl
    rw [same]
    exact ⟨outcome, state, reached⟩

/-- A negated set takes nothing back that it has recorded, as it records nothing. -/
theorem Records.negate (records : walked.Records before emitted) (character : Outcome ε) :
    (walked.negate before character).Adds before (emitted.negate character) := by
  obtain ⟨⟨outcome, state, reached⟩, tidy⟩ := records
  unfold Walked.negate Emitted.negate
  rw [← outcome]
  cases ends : walked.outcome with
  | reached stop => exact adds_of_trace_eq rfl state rfl rfl
  | failed => exact adds_of_trace_eq rfl state (tidy ends) rfl
  | raised | misplaced => exact ⟨by simp [ends, ← outcome], state, by simp [ends]⟩

end Walked

section Repetition

variable {attempt : Nat → Trace → σ → Walked ε σ} {attempt' : Nat → Trace → σ → Emitted ε σ}
  {bounds : Quantifier}

/-- A repetition adds the outputs of the attempts that count, if every attempt
adds its own. -/
theorem repeatWithin_adds (bounds : Quantifier)
    (attempted : ∀ offset before state,
      (attempt offset before state).Adds before (attempt' offset before state)) :
    ∀ (attempts quantity offset : Nat) (before : Trace) (state : σ),
      (repeatWithin attempt bounds attempts quantity offset before state).1 =
          (emitWithin attempt' bounds attempts quantity offset before state).1 ∧
        (repeatWithin attempt bounds attempts quantity offset before state).2.Adds before
          (emitWithin attempt' bounds attempts quantity offset before state).2 := by
  intro attempts
  induction attempts with
  | zero =>
      intro quantity offset before state
      cases more : bounds.allowsMore quantity with
      | false =>
          rw [repeatWithin_of_enough more, emitWithin]
          simp only [more, Bool.false_eq_true, if_false, true_and]
          exact Walked.adds_of_trace_eq rfl rfl rfl rfl
      | true =>
          rw [repeatWithin_zero more, emitWithin]
          simp only [more, if_true, true_and]
          exact Walked.adds_of_trace_eq rfl rfl rfl rfl
  | succ attempts ih =>
      intro quantity offset before state
      obtain ⟨outcome, after, reached⟩ := attempted offset before state
      rw [emitWithin]
      cases more : bounds.allowsMore quantity with
      | false =>
          rw [repeatWithin_of_enough more]
          simp only [Bool.false_eq_true, if_false, true_and]
          exact Walked.adds_of_trace_eq rfl rfl rfl rfl
      | true =>
          simp only [if_true, ← outcome, ← after]
          cases ends : (attempt offset before state).outcome with
          | reached stop =>
              by_cases empty : stop = offset
              · subst empty
                rw [repeatWithin_of_empty more ends]
                simp only [if_true]
                split
                · exact ⟨rfl, Walked.adds_of_trace_eq rfl rfl rfl rfl⟩
                · exact ⟨rfl, outcome, after, reached⟩
              · rw [repeatWithin_of_reached more ends empty, reached stop ends]
                obtain ⟨counted, outcome', after', reached'⟩ := ih (quantity + 1) stop
                  (before.extend (attempt' offset before state).output)
                  (attempt offset before state).state
                simp only [if_neg empty]
                refine ⟨counted, outcome', after', ?_⟩
                intro last matched
                rw [reached' last matched, Emitted.after, Trace.extend_append]
          | failed =>
              rw [repeatWithin_of_failed more ends]
              exact ⟨rfl, Walked.adds_of_trace_eq rfl rfl rfl rfl⟩
          | raised | misplaced =>
              rw [repeatWithin_of_aborted more (by simp [ends]) (by simp [ends])]
              exact ⟨rfl, by simp [ends, ← outcome], after, by simp [ends]⟩

/-- To settle a repetition adds the capture of its group to both walks, or to neither. -/
theorem settleRepetition_adds {kind : Kind} {offset quantity : Nat} {before : Trace}
    {walked : Walked ε σ} {emitted : Emitted ε σ} (adds : walked.Adds before emitted) :
    (settleRepetition kind bounds offset before quantity walked).Adds before
      (emitSettled kind bounds offset quantity emitted) := by
  obtain ⟨outcome, state, reached⟩ := adds
  unfold settleRepetition emitSettled
  rw [← outcome]
  cases ends : walked.outcome with
  | reached stop =>
      have trace := reached stop ends
      by_cases few : quantity < bounds.min
      · simp only [if_pos few]
        exact Walked.adds_of_trace_eq rfl state rfl rfl
      · cases kind.group? with
        | none =>
            simp only [if_neg few]
            exact ⟨outcome, state, reached⟩
        | some group =>
            by_cases matched : 0 < quantity
            · simp only [if_neg few, if_pos matched]
              refine ⟨rfl, state, fun _ _ => ?_⟩
              rw [Trace.extend_append, Trace.extend_capture, ← trace]
            · simp only [if_neg few, if_neg matched]
              exact ⟨outcome, state, reached⟩
  | failed | raised | misplaced => exact ⟨outcome, state, reached⟩

/-- The attempts of a repetition don't make it fail. -/
theorem repeatWithin_ne_failed (attempt : Nat → Trace → σ → Walked ε σ) (bounds : Quantifier)
    (attempts quantity offset : Nat) (before : Trace) (state : σ) :
    (repeatWithin attempt bounds attempts quantity offset before state).2.outcome ≠ .failed := by
  induction attempts generalizing quantity offset before state with
  | zero =>
      cases more : bounds.allowsMore quantity with
      | false => simp [repeatWithin_of_enough more]
      | true => simp [repeatWithin_zero more]
  | succ attempts ih =>
      cases more : bounds.allowsMore quantity with
      | false => simp [repeatWithin_of_enough more]
      | true =>
          cases ends : (attempt offset before state).outcome with
          | reached stop =>
              by_cases empty : stop = offset
              · subst empty
                rw [repeatWithin_of_empty more ends]
                split <;> simp [ends]
              · rw [repeatWithin_of_reached more ends empty]
                exact ih _ _ _ _
          | failed => simp [repeatWithin_of_failed more ends]
          | raised | misplaced =>
              rw [repeatWithin_of_aborted more (by simp [ends]) (by simp [ends])]
              simp [ends]

end Repetition

section Walks

variable {setting : Setting ε σ}

/-- A node takes its trace back when it matches too few times. -/
theorem Node.walk_tidy (node : Node) (offset : Nat) (before : Trace) (state : σ) :
    (node.walk setting offset before state).Tidy before := by
  obtain ⟨kind, quantifier⟩ := node
  intro failed
  simp only [Node.walk] at failed ⊢
  have unfailed := repeatWithin_ne_failed (kind.walk setting) (quantifier.getD .once)
    (setting.furtherAttempts offset + 1) 0 offset before state
  generalize repeatWithin (kind.walk setting) (quantifier.getD .once)
    (setting.furtherAttempts offset + 1) 0 offset before state = repeated at failed unfailed ⊢
  unfold settleRepetition at failed ⊢
  cases ends : repeated.2.outcome with
  | reached stop =>
      simp only [ends] at failed ⊢
      split
      · rfl
      · rename_i enough
        rw [if_neg enough] at failed
        split at failed
        · split at failed <;> simp [ends] at failed
        · simp [ends] at failed
  | failed => exact absurd ends unfailed
  | raised | misplaced => simp [ends] at failed

mutual

/-- A kind adds to the trace what it emits, and nothing else. -/
theorem Kind.walk_adds (appends : setting.Appends) :
    ∀ (kind : Kind) (offset : Nat) (before : Trace) (state : σ),
      (kind.walk setting offset before state).Adds before (kind.emit setting offset before state)
  | .group _ body, offset, before, state => by
      rw [Kind.walk, Kind.emit]
      exact Sequence.walk_adds appends body offset before state
  | .set items false, offset, before, state => by
      rw [Kind.walk, Kind.emit]
      exact Node.walkAny_adds appends items offset before state
  | .set items true, offset, before, state => by
      rw [Kind.walk_negated, Kind.emit]
      have adds := Node.walkAny_adds appends items offset before state
      exact Walked.Records.negate ⟨adds, Node.walkAny_tidy appends.1 offset before items state⟩ _
  | .single _, _, _, _ => by
      rw [Kind.walk, Kind.emit]
      exact Walked.adds_of_trace_eq rfl rfl rfl rfl
  | .wordBoundary, _, _, _ => by
      rw [Kind.walk, Kind.emit]
      exact Walked.adds_of_trace_eq rfl rfl rfl rfl
  | .reference name, offset, before, state => by
      rw [Kind.walk, Kind.emit]
      refine ⟨rfl, rfl, ?_⟩
      intro stop reached
      obtain ⟨output, trace⟩ := appends.2 name offset before state stop reached
      rw [Setting.reply, trace, Trace.since_extend]

theorem Node.walk_adds (appends : setting.Appends) :
    ∀ (node : Node) (offset : Nat) (before : Trace) (state : σ),
      (node.walk setting offset before state).Adds before (node.emit setting offset before state)
  | ⟨kind, quantifier⟩, offset, before, state => by
      simp only [Node.walk, Node.emit]
      obtain ⟨counted, adds⟩ := repeatWithin_adds (quantifier.getD .once)
        (Kind.walk_adds appends kind) (setting.furtherAttempts offset + 1) 0 offset before state
      rw [counted]
      exact settleRepetition_adds adds

theorem Node.walkAll_adds (appends : setting.Appends) :
    ∀ (nodes : List Node) (offset : Nat) (before : Trace) (state : σ),
      (Node.walkAll setting nodes offset before state).Adds before
        (Node.emitAll setting nodes offset before state)
  | [], _, _, _ => by
      rw [Node.walkAll, Node.emitAll]
      exact Walked.adds_of_trace_eq rfl rfl rfl rfl
  | node :: nodes, offset, before, state => by
      rw [Node.walkAll_cons, Node.emitAll]
      apply (Node.walk_adds appends node offset before state).andThen
      intro stop output state
      exact Node.walkAll_adds appends nodes stop (before.extend output) state

theorem Node.walkAny_adds (appends : setting.Appends) :
    ∀ (nodes : List Node) (offset : Nat) (before : Trace) (state : σ),
      (Node.walkAny setting nodes offset before state).Adds before
        (Node.emitAny setting nodes offset before state)
  | [], _, _, _ => by
      rw [Node.walkAny, Node.emitAny]
      exact Walked.adds_of_trace_eq rfl rfl rfl rfl
  | ⟨kind, quantifier⟩ :: nodes, offset, before, state => by
      rw [Node.walkAny_cons, Node.emitAny]
      apply (Kind.walk_adds appends kind offset before state).orElse
      intro failed
      rw [Kind.walk_tidy appends.1 offset before kind state failed]
      exact Node.walkAny_adds appends nodes offset before _

/-- A sequence comes to what it does without a trace, and adds its output where it
matches. -/
theorem Sequence.walk_adds (appends : setting.Appends) :
    ∀ (sequence : Sequence) (offset : Nat) (before : Trace) (state : σ),
      (sequence.walk setting offset before state).Adds before
        (sequence.emit setting offset before state)
  | .only nodes, offset, before, state => by
      rw [Sequence.walk_only, Sequence.emit]
      apply (Node.walkAll_adds appends nodes offset before state).orElse
      intro _
      exact Walked.adds_of_trace_eq rfl rfl rfl rfl
  | .either nodes alternate, offset, before, state => by
      rw [Sequence.walk_either, Sequence.emit]
      apply (Node.walkAll_adds appends nodes offset before state).orElse
      intro _
      exact Sequence.walk_adds appends alternate offset before _

end

/-- The walk of a kind, a node or a sequence records its output or nothing. -/
theorem Kind.walk_records (appends : setting.Appends) (kind : Kind) (offset : Nat)
    (before : Trace) (state : σ) :
    (kind.walk setting offset before state).Records before
      (kind.emit setting offset before state) :=
  ⟨Kind.walk_adds appends kind offset before state,
    Kind.walk_tidy appends.1 offset before kind state⟩

/-- A node adds its output where it matches, and leaves the trace as it was where it
fails. -/
theorem Node.walk_records (appends : setting.Appends) (node : Node) (offset : Nat)
    (before : Trace) (state : σ) :
    (node.walk setting offset before state).Records before
      (node.emit setting offset before state) :=
  ⟨Node.walk_adds appends node offset before state, Node.walk_tidy node offset before state⟩

/-- A sequence adds its output where it matches, and leaves the trace as it was where it
fails. -/
theorem Sequence.walk_records (appends : setting.Appends) (sequence : Sequence) (offset : Nat)
    (before : Trace) (state : σ) :
    (sequence.walk setting offset before state).Records before
      (sequence.emit setting offset before state) :=
  ⟨Sequence.walk_adds appends sequence offset before state,
    Sequence.walk_tidy setting offset before sequence state⟩

end Walks

end TextGrammar
