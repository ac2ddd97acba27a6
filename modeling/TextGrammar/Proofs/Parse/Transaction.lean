import TextGrammar.Proofs.Parse.Resolution
import TextGrammar.Proofs.Walk.Rollback
import TextGrammar.Proofs.Walk.Sufficiency
import TextGrammar.Walk.Dictionary

/-!
What patterns and parses record.

References of a parse record their tree where they match and nothing where they
fail, whatever has been recorded before, and references of a pattern record
nothing. So every walk of a pattern or of a parse leaves the trace as it was
where it fails, and where it matches it adds to the trace what a walk without a
trace puts out (`walk_transactional`).
-/

namespace TextGrammar

section Replies

variable {ε σ : Type} {setting : Setting ε σ}

/-- An attempt that adds the same output to every trace, and none where it fails. -/
def Replies (attempt : Trace → Walked ε σ) : Prop :=
  ∃ emitted : Emitted ε σ, (emitted.outcome = .failed → emitted.output = {}) ∧
    ∀ before, attempt before = ⟨emitted.outcome, before.extend emitted.output, emitted.state⟩

/-- Every reference adds an output that doesn't depend on the trace. -/
def Setting.Replies (setting : Setting ε σ) : Prop :=
  ∀ name offset state, TextGrammar.Replies fun before => setting.resolve name offset before state

theorem Setting.Replies.appends (replies : setting.Replies) : setting.Appends := by
  constructor
  · intro name offset before state failed
    obtain ⟨emitted, silent, resolves⟩ := replies name offset state
    simp only at resolves
    rw [resolves before] at failed ⊢
    rw [silent failed, Trace.extend_empty]
  · intro name offset before state stop _
    obtain ⟨emitted, _, resolves⟩ := replies name offset state
    simp only at resolves
    exact ⟨emitted.output, by rw [resolves before]⟩

theorem Setting.Replies.blind (replies : setting.Replies) : setting.Blind := by
  intro name offset before before' state
  obtain ⟨emitted, _, resolves⟩ := replies name offset state
  simp only at resolves
  simp only [Setting.reply, resolves, Trace.since_extend]

end Replies

theorem Pattern.replies_noReferences (text : Text) :
    Setting.Replies { text, resolve := Pattern.noReferences } := by
  intro name offset state
  exact ⟨⟨.failed, {}, state⟩, fun _ => rfl, fun _ => rfl⟩

theorem Dictionary.replies_resolve (dictionary : Dictionary) (text : Text) :
    Setting.Replies { text, resolve := dictionary.resolve text } := by
  intro name offset calls
  simp only [Dictionary.resolve]
  split
  · exact ⟨⟨.failed, {}, _⟩, fun _ => rfl, fun _ => rfl⟩
  · exact ⟨⟨.raised _, {}, _⟩, nofun, fun _ => rfl⟩
  · split
    · exact ⟨⟨.misplaced, {}, _⟩, nofun, fun _ => rfl⟩
    · split
      · exact ⟨⟨.reached _, { trees := [_] }, _⟩, nofun, fun _ => rfl⟩
      · exact ⟨⟨.failed, {}, _⟩, fun _ => rfl, fun _ => rfl⟩

namespace Grammar

variable {grammar : Grammar} {text : Text}

/-- What the attempt at a production puts out is its tree. -/
theorem concludeProduction_replies (outcome : Remembered) (state : ParseState) :
    Replies fun before => concludeProduction outcome before state := by
  cases outcome with
  | none => exact ⟨⟨.failed, {}, state⟩, fun _ => rfl, fun _ => rfl⟩
  | some result =>
      exact ⟨⟨.reached result.1, { trees := [result.2] }, state⟩, nofun, fun _ => rfl⟩

theorem matchToken_replies (name : String) (pattern : Pattern) (offset : Nat)
    (state : ParseState) :
    Replies fun before => grammar.matchToken text name pattern offset before state := by
  unfold matchToken
  split
  · exact ⟨⟨.misplaced, {}, state⟩, nofun, fun _ => rfl⟩
  · split
    · exact ⟨⟨.failed, {}, _⟩, fun _ => rfl, fun _ => rfl⟩
    · split
      · exact ⟨⟨.misplaced, {}, state⟩, nofun, fun _ => rfl⟩
      · exact ⟨⟨.reached _, { trees := [_] }, _⟩, nofun, fun _ => rfl⟩

theorem leaveProduction_replies (key : ProductionAt) (refusalsBefore : Nat) (outcome : Remembered)
    (state : ParseState) :
    Replies fun before => grammar.leaveProduction key refusalsBefore outcome before state := by
  unfold leaveProduction
  exact concludeProduction_replies _ _

theorem matchProduction_replies (resolve : Resolver Error ParseState) (expression : Expression)
    (key : ProductionAt) (state : ParseState) :
    Replies fun before => grammar.matchProduction text resolve expression key before state := by
  unfold matchProduction
  simp only
  split
  · exact leaveProduction_replies _ _ _ _
  · exact leaveProduction_replies _ _ _ _
  · exact ⟨⟨.raised _, {}, _⟩, nofun, fun _ => rfl⟩
  · exact ⟨⟨.misplaced, {}, _⟩, nofun, fun _ => rfl⟩

/-- A name puts out a tree where it matches and nothing where it fails. -/
theorem replies_resolveWithin (grammar : Grammar) (text : Text) (room : Nat) :
    Setting.Replies { text, resolve := grammar.resolveWithin text room } := by
  intro name offset state
  cases noToken : grammar.token? name with
  | some pattern =>
      simp only [resolveWithin_of_token noToken]
      exact matchToken_replies name pattern offset state
  | none =>
      cases found : grammar.production? name with
      | none =>
          simp only [resolveWithin_of_unknown noToken found]
          exact ⟨⟨.raised _, {}, state⟩, nofun, fun _ => rfl⟩
      | some expression =>
          cases remembered : grammar.remembered? ⟨name, offset⟩ state.progress with
          | some outcome =>
              simp only [resolveWithin_of_remembered noToken found remembered]
              exact concludeProduction_replies _ _
          | none =>
              cases room with
              | zero =>
                  simp only [resolveWithin_zero noToken found remembered]
                  exact ⟨⟨.raised _, {}, _⟩, nofun, fun _ => rfl⟩
              | succ room =>
                  by_cases active : (⟨name, offset⟩ : ProductionAt) ∈ state.progress.active
                  · simp only [resolveWithin_of_active noToken found remembered active]
                    exact ⟨⟨.failed, {}, _⟩, fun _ => rfl, fun _ => rfl⟩
                  · simp only [resolveWithin_of_inactive noToken found remembered active]
                    exact matchProduction_replies _ expression _ state

theorem replies_resolve (grammar : Grammar) (text : Text) :
    Setting.Replies { text, resolve := grammar.resolve text } := by
  intro name offset state
  exact grammar.replies_resolveWithin text (grammar.room state.progress) name offset state

end Grammar

/-- If references leave the trace as it was where they fail and add to it where
they match, so do sequences, nodes and kinds, and what they add is what the walk
without a trace puts out; to cut the trace back to marks comes to the same.
References of patterns and of parses are of this kind, and as they don't look at
what has been recorded before, no output depends on it.

That is so wherever references lead and however many attempts a repetition may
make. With more attempts a walk that comes to an end ends in the same way; and one
that comes to no end is stuck in the text, in a reference, or in a repetition that
has used up its attempts. -/
theorem walk_transactional :
    (∀ text, Setting.Appends { text, resolve := Pattern.noReferences } ∧
      Setting.Blind { text, resolve := Pattern.noReferences }) ∧
    (∀ (grammar : Grammar) text, Setting.Appends { text, resolve := grammar.resolve text } ∧
      Setting.Blind { text, resolve := grammar.resolve text }) ∧
    (∀ {ε σ : Type} (setting : Setting ε σ), setting.Appends →
      (∀ (sequence : Sequence) offset before state,
        (sequence.walk setting offset before state).Records before
            (sequence.emit setting offset before state) ∧
          sequence.walkMarked setting offset before state =
            sequence.walk setting offset before state ∧
          (setting.Blind → sequence.emit setting offset before state =
            sequence.emit setting offset {} state)) ∧
      (∀ (node : Node) offset before state,
        (node.walk setting offset before state).Records before
            (node.emit setting offset before state) ∧
          node.walkMarked setting offset before state = node.walk setting offset before state ∧
          (setting.Blind → node.emit setting offset before state =
            node.emit setting offset {} state)) ∧
      ∀ (kind : Kind) offset before state,
        (kind.walk setting offset before state).Records before
            (kind.emit setting offset before state) ∧
          kind.walkMarked setting offset before state = kind.walk setting offset before state ∧
          (setting.Blind → kind.emit setting offset before state =
            kind.emit setting offset {} state)) ∧
    ∀ {ε σ : Type} (setting : Setting ε σ) (activation : Activation σ),
      (∀ more, (∀ offset, setting.furtherAttempts offset ≤ more offset) →
        (activation.walk setting).outcome ≠ .misplaced →
          activation.walk { setting with furtherAttempts := more } = activation.walk setting) ∧
      ((activation.walk setting).outcome = .misplaced →
        ∃ inner, Activation.Reaches setting activation inner ∧ inner.Stuck setting) := by
  refine ⟨?_, ?_, ?_, ?_⟩
  · intro text
    have replies := Pattern.replies_noReferences text
    exact ⟨replies.appends, replies.blind⟩
  · intro grammar text
    have replies := grammar.replies_resolve text
    exact ⟨replies.appends, replies.blind⟩
  · intro ε σ setting appends
    refine ⟨?_, ?_, ?_⟩
    · intro sequence offset before state
      exact ⟨sequence.walk_records appends offset before state,
        sequence.walkMarked_eq appends offset before state,
        fun blind => sequence.emit_blind blind offset before {} state⟩
    · intro node offset before state
      exact ⟨node.walk_records appends offset before state,
        node.walkMarked_eq appends offset before state,
        fun blind => node.emit_blind blind offset before {} state⟩
    · intro kind offset before state
      exact ⟨kind.walk_records appends offset before state,
        kind.walkMarked_eq appends offset before state,
        fun blind => kind.emit_blind blind offset before {} state⟩
  · intro ε σ setting activation
    exact ⟨fun _ enough placed => activation.walk_granted enough placed,
      Activation.exists_stuck⟩

/-- Two names one after another, repeated in a group. -/
def pairs : Sequence :=
  .only [⟨.group 1 (.only [.one (.reference "A"), .one (.reference "B")]), some .zeroOrMore⟩]

/-- Every name goes back by one byte, wherever that is, as long as there is one to go
back by. -/
def stepBack : Resolver Empty Unit
  | _, 0, trace, state => ⟨.failed, trace, state⟩
  | name, offset + 1, trace, state => ⟨.reached offset, trace.addTree (.leaf name "" offset), state⟩

theorem replies_stepBack (text : Text) (furtherAttempts : Nat → Nat) :
    Setting.Replies ⟨text, stepBack, furtherAttempts⟩ := by
  intro name offset state
  cases offset with
  | zero => exact ⟨⟨.failed, {}, state⟩, fun _ => rfl, fun _ => rfl⟩
  | succ offset =>
      exact ⟨⟨.reached offset, { trees := [.leaf name "" offset] }, state⟩, nofun, fun _ => rfl⟩

/-- In a text of words the second pair breaks off after its first name, which leaves no
trace. Past the end of a text, going back, two pairs are matched and one breaks off, for
which three attempts are needed. -/
theorem pairs_transactional :
    let words : Setting String (List Call) :=
      { text := "abac".toList
        resolve := Dictionary.resolve [("A", some ['a']), ("B", some ['b'])] "abac".toList }
    let back : Setting Empty Unit := ⟨[], stepBack, fun _ => 2⟩
    let before : Trace := { captures := [⟨7, 0, 0⟩] }
    words.Appends ∧ back.Appends ∧
      (pairs.walk words 0 before []).trace =
        before.extend (pairs.emit words 0 before []).output ∧
      (pairs.emit words 0 before []).output.captures = [⟨1, 0, 2⟩] ∧
      (pairs.emit words 0 before []).output.trees.map ParseTree.label = ["A", "B"] ∧
      (pairs.walk back 5 before ()).outcome = .reached 1 ∧
      (pairs.walk back 5 before ()).trace =
        before.extend (pairs.emit back 5 before ()).output ∧
      (pairs.emit back 5 before ()).output.captures = [⟨1, 5, 1⟩] ∧
      (pairs.emit back 5 before ()).output.trees.map ParseTree.offset =
        [some 4, some 3, some 2, some 1] ∧
      ∀ attempts, 2 ≤ attempts →
        pairs.walk { back with furtherAttempts := fun _ => attempts } 5 before () =
          pairs.walk back 5 before () := by
  intro words back before
  have appends : words.Appends := (Dictionary.replies_resolve _ _).appends
  have appendsBack : back.Appends := (replies_stepBack [] _).appends
  obtain ⟨records, _⟩ := (walk_transactional.2.2.1 words appends).1 pairs 0 before []
  obtain ⟨recordsBack, _⟩ := (walk_transactional.2.2.1 back appendsBack).1 pairs 5 before ()
  have reached : (pairs.walk words 0 before []).outcome = .reached 2 := by decide +kernel
  have reachedBack : (pairs.walk back 5 before ()).outcome = .reached 1 := by decide +kernel
  have granted := (walk_transactional.2.2.2 back ⟨.sequence pairs, 5, before, ()⟩).1
  refine ⟨appends, appendsBack, records.reached 2 reached, by decide +kernel, by decide +kernel,
    reachedBack, recordsBack.reached 1 reachedBack, by decide +kernel, by decide +kernel, ?_⟩
  intro attempts enough
  exact granted (fun _ => attempts) (fun _ => enough) (by simp [Activation.walk, reachedBack])

end TextGrammar
