import TextGrammar.Proofs.Walk.Persistence

/-!
Walks that go alike.

Two walks of the same nodes, perhaps over different texts and with different
resolvers, go alike if references do: a `Likeness` says how their offsets, traces
and states correspond, and `Sequence.walk_alike` carries it from references to
whole sequences. A walk may also drop out of the comparison, by an error or by a
state from which there is no way back; then nothing is said of the other one.
-/

namespace TextGrammar

variable {ε σ ε' σ' : Type}

/-- A walk that has dropped out of a comparison: it was lost by an error or left
the text, or the resolver is in a state that puts it off. -/
def Walked.Gone (lost : ε → Prop) (off : σ → Prop) (walked : Walked ε σ) : Prop :=
  walked.outcome = .misplaced ∨ (∃ error, walked.outcome = .raised error ∧ lost error) ∨
    off walked.state

/-- How two walks of nodes of certain kinds correspond. -/
structure Likeness (ε σ ε' σ' : Type) where
  /-- The kinds of nodes that the walks may meet. -/
  meets : Kind → Prop
  place : Nat → Nat → Prop
  trace : Trace → Trace → Prop
  state : σ → σ' → Prop
  error : ε → ε' → Prop
  /-- Errors, and states of the resolver, after which the first walk is gone. -/
  lost : ε → Prop
  off : σ → Prop
  /-- Errors, and states of the resolver, after which the second walk is gone. -/
  lost' : ε' → Prop
  off' : σ' → Prop

namespace Likeness

/-- Attempts that end alike. -/
inductive Ends (l : Likeness ε σ ε' σ') : Outcome ε → Outcome ε' → Prop where
  | reached {stop stop' : Nat} : l.place stop stop' → Ends l (.reached stop) (.reached stop')
  | failed : Ends l .failed .failed
  | raised {error : ε} {error' : ε'} : l.error error error' →
      Ends l (.raised error) (.raised error')

/-- Walks of which neither has dropped out. -/
structure Close (l : Likeness ε σ ε' σ') (walked : Walked ε σ) (walked' : Walked ε' σ') :
    Prop where
  outcome : l.Ends walked.outcome walked'.outcome
  trace : l.trace walked.trace walked'.trace
  state : l.state walked.state walked'.state

/-- Walks that have gone alike as long as both are in the comparison. -/
def Alike (l : Likeness ε σ ε' σ') (walked : Walked ε σ) (walked' : Walked ε' σ') : Prop :=
  walked.Gone l.lost l.off ∨ walked'.Gone l.lost' l.off' ∨ l.Close walked walked'

/-- Attempts without a resolver that end alike, unless one leaves the text. -/
def AlikeEnds (l : Likeness ε σ ε' σ') (outcome : Outcome ε) (outcome' : Outcome ε') : Prop :=
  outcome = .misplaced ∨ outcome' = .misplaced ∨ l.Ends outcome outcome'

/-- A likeness that walks keep when references do. -/
structure Lawful (l : Likeness ε σ ε' σ') (setting : Setting ε σ) (setting' : Setting ε' σ') :
    Prop where
  place_iff : ∀ {one one' two two'}, l.place one one' → l.place two two' →
    (one = two ↔ one' = two')
  capture : ∀ {trace trace' group start start' stop stop'}, l.trace trace trace' →
    l.place start start' → l.place stop stop' →
    l.trace (trace.addCapture ⟨group, start, stop⟩) (trace'.addCapture ⟨group, start', stop'⟩)
  character : ∀ {kind offset offset'}, l.meets kind →
    (∃ chars, kind = .single chars) ∨ (∃ items, kind = .set items true) →
    l.place offset offset' → ∀ test,
    l.AlikeEnds (setting.text.matchChar test offset) (setting'.text.matchChar test offset')
  boundary : ∀ {offset offset'}, l.meets .wordBoundary → l.place offset offset' →
    l.AlikeEnds (setting.text.matchWordBoundary offset) (setting'.text.matchWordBoundary offset')
  reference : ∀ {name offset offset' trace trace' state state'}, l.meets (.reference name) →
    l.place offset offset' → l.trace trace trace' → l.state state state' →
    l.Alike (setting.resolve name offset trace state) (setting'.resolve name offset' trace' state')
  keeps : setting.Keeps l.off
  keeps' : setting'.Keeps l.off'

section Self

variable {l : Likeness ε σ ε' σ'} {text : Text} {offset : Nat}

/-- A character is matched alike with itself. -/
theorem alikeEnds_matchChar (place : ∀ offset, l.place offset offset) (test : Char → Bool) :
    l.AlikeEnds (text.matchChar test offset) (text.matchChar test offset) := by
  unfold Text.matchChar
  split
  · exact .inl rfl
  · exact .inr (.inr .failed)
  · split
    · exact .inr (.inr (.reached (place _)))
    · exact .inr (.inr .failed)

/-- At the same place of one text, a word boundary is found alike. -/
theorem alikeEnds_matchWordBoundary (place : ∀ offset, l.place offset offset) :
    l.AlikeEnds (text.matchWordBoundary offset) (text.matchWordBoundary offset) := by
  unfold Text.matchWordBoundary
  split
  · exact .inl rfl
  · split
    · exact .inr (.inr (.reached (place _)))
    · exact .inr (.inr .failed)

/-- Where offsets and traces are the same on both sides, all but the references
is alike. -/
theorem lawful_of_same (place : l.place = Eq) (trace : l.trace = Eq)
    {resolve : Resolver ε σ} {resolve' : Resolver ε' σ'} {furtherAttempts : Nat → Nat}
    (reference : ∀ name offset trace state state', l.state state state' →
      l.Alike (resolve name offset trace state) (resolve' name offset trace state'))
    (keeps : Setting.Keeps ⟨text, resolve, furtherAttempts⟩ l.off)
    (keeps' : Setting.Keeps ⟨text, resolve', furtherAttempts⟩ l.off') :
    l.Lawful ⟨text, resolve, furtherAttempts⟩ ⟨text, resolve', furtherAttempts⟩ where
  place_iff := by
    rw [place]
    rintro one _ two _ rfl rfl
    exact Iff.rfl
  capture := by
    rw [place, trace]
    rintro trace _ group start _ stop _ rfl rfl rfl
    rfl
  character := by
    intro kind offset offset' _ _ here test
    rw [place] at here
    subst here
    exact alikeEnds_matchChar (fun offset => by rw [place]) test
  boundary := by
    intro offset offset' _ here
    rw [place] at here
    subst here
    exact alikeEnds_matchWordBoundary fun offset => by rw [place]
  reference := by
    intro name offset offset' before before' state state' _ here same states
    rw [place] at here
    rw [trace] at same
    subst here same
    exact reference name offset before state state' states
  keeps := keeps
  keeps' := keeps'

end Self

end Likeness

/-! ### Dropping out -/

namespace Walked.Gone

variable {lost : ε → Prop} {off : σ → Prop} {walked : Walked ε σ}

/-- What has dropped out stays out, whatever is done where it has matched. -/
theorem andThen {next : Nat → Trace → σ → Walked ε σ} (gone : walked.Gone lost off)
    (kept : ∀ stop trace state, off state → off (next stop trace state).state) :
    (walked.andThen next).Gone lost off := by
  rcases gone with misplaced | ⟨error, raised, isLost⟩ | isOff
  · rw [andThen_of_not_reached (by simp [misplaced])]
    exact .inl misplaced
  · rw [andThen_of_not_reached (by simp [raised])]
    exact .inr (.inl ⟨error, raised, isLost⟩)
  · exact .inr (.inr (keeps_andThen isOff kept))

/-- An alternative that keeps to what is given up leaves it given up. -/
theorem orElse {other : Trace → σ → Walked ε σ} (gone : walked.Gone lost off)
    (kept : ∀ trace state, off state → off (other trace state).state) :
    (walked.orElse other).Gone lost off := by
  rcases gone with misplaced | ⟨error, raised, isLost⟩ | isOff
  · rw [orElse_of_not_failed (by simp [misplaced])]
    exact .inl misplaced
  · rw [orElse_of_not_failed (by simp [raised])]
    exact .inr (.inl ⟨error, raised, isLost⟩)
  · exact .inr (.inr (keeps_orElse isOff kept))

/-- What is given up stays so when a set is negated. -/
theorem negate (gone : walked.Gone lost off) (trace : Trace) (character : Outcome ε) :
    (walked.negate trace character).Gone lost off := by
  rcases gone with misplaced | ⟨error, raised, isLost⟩ | isOff
  · exact .inl (by simp [Walked.negate, misplaced])
  · exact .inr (.inl ⟨error, by simp [Walked.negate, raised], isLost⟩)
  · refine .inr (.inr ?_)
    rw [state_negate]
    exact isOff

/-- What is given up stays so at the end of a repetition. -/
theorem settleRepetition (gone : walked.Gone lost off) (kind : Kind) (bounds : Quantifier)
    (offset : Nat) (entered : Trace) (quantity : Nat) :
    (settleRepetition kind bounds offset entered quantity walked).Gone lost off := by
  rcases gone with misplaced | ⟨error, raised, isLost⟩ | isOff
  · rw [settleRepetition_of_not_reached (by simp [misplaced])]
    exact .inl misplaced
  · rw [settleRepetition_of_not_reached (by simp [raised])]
    exact .inr (.inl ⟨error, raised, isLost⟩)
  · refine .inr (.inr ?_)
    rw [settleRepetition_state]
    exact isOff

/-- A repetition drops out with its first attempt. -/
theorem repeatWithin {attempt : Nat → Trace → σ → Walked ε σ} {bounds : Quantifier}
    {attempts quantity offset : Nat} {trace : Trace} {state : σ}
    (gone : (attempt offset trace state).Gone lost off)
    (more : bounds.allowsMore quantity = true)
    (kept : ∀ offset trace state, off state → off (attempt offset trace state).state) :
    (repeatWithin attempt bounds (attempts + 1) quantity offset trace state).2.Gone lost off := by
  rcases gone with misplaced | ⟨error, raised, isLost⟩ | isOff
  · rw [repeatWithin_of_aborted more (by simp [misplaced]) (by simp [misplaced])]
    exact .inl misplaced
  · rw [repeatWithin_of_aborted more (by simp [raised]) (by simp [raised])]
    exact .inr (.inl ⟨error, raised, isLost⟩)
  · refine .inr (.inr ?_)
    cases ends : (attempt offset trace state).outcome with
    | reached stop =>
        by_cases empty : stop = offset
        · subst empty
          rw [repeatWithin_of_empty more ends]
          split <;> exact isOff
        · rw [repeatWithin_of_reached more ends empty]
          exact repeatWithin_keeps kept _ _ _ _ _ isOff
    | failed =>
        rw [repeatWithin_of_failed more ends]
        exact isOff
    | raised | misplaced =>
        rw [repeatWithin_of_aborted more (by simp [ends]) (by simp [ends])]
        exact isOff

end Walked.Gone

/-! ### Going on alike -/

namespace Likeness

section Connectives

variable {l : Likeness ε σ ε' σ'} {walked : Walked ε σ} {walked' : Walked ε' σ'}

/-- Walks that are alike, with alike continuations, are alike one after the other. -/
theorem Alike.andThen {next : Nat → Trace → σ → Walked ε σ}
    {next' : Nat → Trace → σ' → Walked ε' σ'} (alike : l.Alike walked walked')
    (kept : ∀ stop trace state, l.off state → l.off (next stop trace state).state)
    (kept' : ∀ stop trace state, l.off' state → l.off' (next' stop trace state).state)
    (goOn : ∀ stop stop' trace trace' state state', l.place stop stop' → l.trace trace trace' →
      l.state state state' → l.Alike (next stop trace state) (next' stop' trace' state')) :
    l.Alike (walked.andThen next) (walked'.andThen next') := by
  rcases alike with gone | gone | ⟨ends, traces, states⟩
  · exact .inl (gone.andThen kept)
  · exact .inr (.inl (gone.andThen kept'))
  · obtain ⟨outcome, trace, state⟩ := walked
    obtain ⟨outcome', trace', state'⟩ := walked'
    cases ends with
    | reached place => exact goOn _ _ _ _ _ _ place traces states
    | failed => exact .inr (.inr ⟨.failed, traces, states⟩)
    | raised error => exact .inr (.inr ⟨.raised error, traces, states⟩)

/-- Walks that are alike, with alike alternatives, are alike one instead of the other. -/
theorem Alike.orElse {other : Trace → σ → Walked ε σ} {other' : Trace → σ' → Walked ε' σ'}
    (alike : l.Alike walked walked')
    (kept : ∀ trace state, l.off state → l.off (other trace state).state)
    (kept' : ∀ trace state, l.off' state → l.off' (other' trace state).state)
    (goOn : ∀ trace trace' state state', l.trace trace trace' → l.state state state' →
      l.Alike (other trace state) (other' trace' state')) :
    l.Alike (walked.orElse other) (walked'.orElse other') := by
  rcases alike with gone | gone | ⟨ends, traces, states⟩
  · exact .inl (gone.orElse kept)
  · exact .inr (.inl (gone.orElse kept'))
  · obtain ⟨outcome, trace, state⟩ := walked
    obtain ⟨outcome', trace', state'⟩ := walked'
    cases ends with
    | reached place => exact .inr (.inr ⟨.reached place, traces, states⟩)
    | failed => exact goOn _ _ _ _ traces states
    | raised error => exact .inr (.inr ⟨.raised error, traces, states⟩)

/-- Walks that have gone alike are close if neither has dropped out. -/
theorem Alike.close (alike : l.Alike walked walked') (placed : walked.outcome ≠ .misplaced)
    (kept : ∀ error, l.lost error → walked.outcome ≠ .raised error) (on : ¬ l.off walked.state)
    (placed' : walked'.outcome ≠ .misplaced)
    (kept' : ∀ error, l.lost' error → walked'.outcome ≠ .raised error)
    (on' : ¬ l.off' walked'.state) : l.Close walked walked' := by
  rcases alike with gone | gone | close
  · rcases gone with misplaced | ⟨error, raised, lost⟩ | off
    · exact absurd misplaced placed
    · exact absurd raised (kept error lost)
    · exact absurd off on
  · rcases gone with misplaced | ⟨error, raised, lost⟩ | off
    · exact absurd misplaced placed'
    · exact absurd raised (kept' error lost)
    · exact absurd off on'
  · exact close

/-- An attempt without a resolver, with traces and states that correspond. -/
theorem AlikeEnds.alike {outcome : Outcome ε} {outcome' : Outcome ε'} {trace trace' : Trace}
    {state : σ} {state' : σ'} (alike : l.AlikeEnds outcome outcome')
    (traces : l.trace trace trace') (states : l.state state state') :
    l.Alike ⟨outcome, trace, state⟩ ⟨outcome', trace', state'⟩ := by
  rcases alike with misplaced | misplaced | ends
  · exact .inl (.inl misplaced)
  · exact .inr (.inl (.inl misplaced))
  · exact .inr (.inr ⟨ends, traces, states⟩)

/-- Walks of items that are alike stay so when the set is negated. -/
theorem Alike.negate {trace trace' : Trace} {outcome : Outcome ε} {outcome' : Outcome ε'}
    (alike : l.Alike walked walked') (traces : l.trace trace trace')
    (character : l.AlikeEnds outcome outcome') :
    l.Alike (walked.negate trace outcome) (walked'.negate trace' outcome') := by
  rcases alike with gone | gone | ⟨ends, after, states⟩
  · exact .inl (gone.negate trace outcome)
  · exact .inr (.inl (gone.negate trace' outcome'))
  · obtain ⟨found, unmatched, state⟩ := walked
    obtain ⟨found', unmatched', state'⟩ := walked'
    cases ends with
    | reached place => exact .inr (.inr ⟨.failed, traces, states⟩)
    | failed => exact character.alike after states
    | raised error => exact .inr (.inr ⟨.raised error, after, states⟩)

end Connectives

section Repetition

variable {l : Likeness ε σ ε' σ'} {setting : Setting ε σ} {setting' : Setting ε' σ'}
  {attempt : Nat → Trace → σ → Walked ε σ} {attempt' : Nat → Trace → σ' → Walked ε' σ'}
  {bounds : Quantifier}

/-- Repetitions go alike if their attempts do, and count the same. -/
theorem repeatWithin_alike (lawful : l.Lawful setting setting')
    (kept : ∀ offset trace state, l.off state → l.off (attempt offset trace state).state)
    (kept' : ∀ offset trace state, l.off' state → l.off' (attempt' offset trace state).state)
    (attempted : ∀ offset offset' trace trace' state state', l.place offset offset' →
      l.trace trace trace' → l.state state state' →
      l.Alike (attempt offset trace state) (attempt' offset' trace' state')) :
    ∀ (attempts attempts' quantity offset offset' : Nat) (trace trace' : Trace) (state : σ)
      (state' : σ'), l.place offset offset' → l.trace trace trace' → l.state state state' →
      (repeatWithin attempt bounds attempts quantity offset trace state).2.Gone l.lost l.off ∨
      (repeatWithin attempt' bounds attempts' quantity offset' trace' state').2.Gone
        l.lost' l.off' ∨
      (repeatWithin attempt bounds attempts quantity offset trace state).1 =
          (repeatWithin attempt' bounds attempts' quantity offset' trace' state').1 ∧
        l.Close (repeatWithin attempt bounds attempts quantity offset trace state).2
          (repeatWithin attempt' bounds attempts' quantity offset' trace' state').2 := by
  intro attempts
  induction attempts with
  | zero =>
      intro attempts' quantity offset offset' trace trace' state state' place traces states
      cases more : bounds.allowsMore quantity with
      | false =>
          rw [repeatWithin_of_enough more, repeatWithin_of_enough more]
          exact .inr (.inr ⟨rfl, .reached place, traces, states⟩)
      | true =>
          rw [repeatWithin_zero more]
          exact .inl (.inl rfl)
  | succ attempts ih =>
      intro attempts' quantity offset offset' trace trace' state state' place traces states
      cases more : bounds.allowsMore quantity with
      | false =>
          rw [repeatWithin_of_enough more, repeatWithin_of_enough more]
          exact .inr (.inr ⟨rfl, .reached place, traces, states⟩)
      | true =>
          cases attempts' with
          | zero =>
              rw [repeatWithin_zero more]
              exact .inr (.inl (.inl rfl))
          | succ attempts' =>
              rcases attempted offset offset' trace trace' state state' place traces states with
                gone | gone | close
              · exact .inl (gone.repeatWithin more kept)
              · exact .inr (.inl (gone.repeatWithin more kept'))
              · obtain ⟨ends, after, states⟩ := close
                generalize outcome : (attempt offset trace state).outcome = found at ends
                generalize outcome' : (attempt' offset' trace' state').outcome = found' at ends
                cases ends with
                | @reached stop stop' next =>
                    by_cases empty : stop = offset
                    · have empty' : stop' = offset' := (lawful.place_iff next place).mp empty
                      subst empty empty'
                      rw [repeatWithin_of_empty more outcome, repeatWithin_of_empty more outcome']
                      split
                      · exact .inr (.inr ⟨rfl, .reached place, traces, states⟩)
                      · refine .inr (.inr ⟨rfl, ?_, after, states⟩)
                        rw [outcome, outcome']
                        exact .reached next
                    · have advances : stop' ≠ offset' :=
                        fun same => empty ((lawful.place_iff next place).mpr same)
                      rw [repeatWithin_of_reached more outcome empty,
                        repeatWithin_of_reached more outcome' advances]
                      exact ih _ _ _ _ _ _ _ _ next after states
                | failed =>
                    rw [repeatWithin_of_failed more outcome, repeatWithin_of_failed more outcome']
                    exact .inr (.inr ⟨rfl, .reached place, traces, states⟩)
                | raised error =>
                    rw [repeatWithin_of_aborted more (by simp [outcome]) (by simp [outcome]),
                      repeatWithin_of_aborted more (by simp [outcome']) (by simp [outcome'])]
                    refine .inr (.inr ⟨rfl, ?_, after, states⟩)
                    rw [outcome, outcome']
                    exact .raised error

/-- Repetitions that have counted the same are settled alike. -/
theorem Close.settleRepetition {walked : Walked ε σ} {walked' : Walked ε' σ'}
    (lawful : l.Lawful setting setting') (close : l.Close walked walked') (kind : Kind)
    {offset offset' : Nat} {trace trace' : Trace} (place : l.place offset offset')
    (traces : l.trace trace trace') (quantity : Nat) :
    l.Close (settleRepetition kind bounds offset trace quantity walked)
      (settleRepetition kind bounds offset' trace' quantity walked') := by
  obtain ⟨outcome, after, state⟩ := walked
  obtain ⟨outcome', after', state'⟩ := walked'
  obtain ⟨ends, afters, states⟩ := close
  simp only at ends afters states
  cases ends with
  | reached next =>
      unfold TextGrammar.settleRepetition
      simp only
      split
      · exact ⟨.failed, traces, states⟩
      · split
        · split
          · exact ⟨.reached next, lawful.capture afters place next, states⟩
          · exact ⟨.reached next, afters, states⟩
        · exact ⟨.reached next, afters, states⟩
  | failed => exact ⟨.failed, afters, states⟩
  | raised error => exact ⟨.raised error, afters, states⟩

end Repetition

end Likeness

/-! ### Whole walks -/

section Walks

variable {l : Likeness ε σ ε' σ'} {setting : Setting ε σ} {setting' : Setting ε' σ'}

mutual

theorem Kind.walk_alike (lawful : l.Lawful setting setting') :
    ∀ (kind : Kind), l.meets kind → (∀ node ∈ kind.visit, l.meets node.kind) →
      ∀ offset offset' trace trace' state state', l.place offset offset' →
        l.trace trace trace' → l.state state state' →
        l.Alike (kind.walk setting offset trace state) (kind.walk setting' offset' trace' state')
  | .group _ body, _, inside, offset, offset', trace, trace', state, state', place, traces,
      states => by
      rw [Kind.walk, Kind.walk]
      exact Sequence.walk_alike lawful body inside _ _ _ _ _ _ place traces states
  | .set items false, _, inside, offset, offset', trace, trace', state, state', place, traces,
      states => by
      rw [Kind.walk, Kind.walk]
      exact Node.walkAny_alike lawful items inside _ _ _ _ _ _ place traces states
  | .set items true, allowed, inside, offset, offset', trace, trace', state, state', place, traces,
      states => by
      rw [Kind.walk_negated, Kind.walk_negated]
      have alike := Node.walkAny_alike lawful items inside _ _ _ _ _ _ place traces states
      exact alike.negate traces (lawful.character allowed (.inr ⟨items, rfl⟩) place _)
  | .single chars, allowed, _, offset, offset', trace, trace', state, state', place, traces,
      states => by
      rw [Kind.walk, Kind.walk]
      exact (lawful.character allowed (.inl ⟨chars, rfl⟩) place _).alike traces states
  | .wordBoundary, allowed, _, offset, offset', trace, trace', state, state', place, traces,
      states => by
      rw [Kind.walk, Kind.walk]
      exact (lawful.boundary allowed place).alike traces states
  | .reference name, allowed, _, offset, offset', trace, trace', state, state', place, traces,
      states => by
      rw [Kind.walk, Kind.walk]
      exact lawful.reference allowed place traces states

theorem Node.walk_alike (lawful : l.Lawful setting setting') :
    ∀ (node : Node), (∀ inner ∈ node.visit, l.meets inner.kind) →
      ∀ offset offset' trace trace' state state', l.place offset offset' →
        l.trace trace trace' → l.state state state' →
        l.Alike (node.walk setting offset trace state) (node.walk setting' offset' trace' state')
  | ⟨kind, quantifier⟩, inside, offset, offset', trace, trace', state, state', place, traces,
      states => by
      have allowed : l.meets kind := inside ⟨kind, quantifier⟩ (by simp [Node.visit])
      have below : ∀ node ∈ kind.visit, l.meets node.kind :=
        fun node mem => inside node (by simp [Node.visit, mem])
      rw [Node.walk, Node.walk]
      simp only
      rcases Likeness.repeatWithin_alike lawful
        (fun offset trace state => kind.walk_keeps lawful.keeps offset trace state)
        (fun offset trace state => kind.walk_keeps lawful.keeps' offset trace state)
        (Kind.walk_alike lawful kind allowed below)
        (setting.furtherAttempts offset + 1) (setting'.furtherAttempts offset' + 1) 0 _ _ _ _ _ _
        place traces states with gone | gone | ⟨same, close⟩
      · exact .inl (gone.settleRepetition ..)
      · exact .inr (.inl (gone.settleRepetition ..))
      · rw [same]
        exact .inr (.inr (close.settleRepetition lawful kind place traces _))

theorem Node.walkAll_alike (lawful : l.Lawful setting setting') :
    ∀ (nodes : List Node), (∀ inner ∈ Node.visitAll nodes, l.meets inner.kind) →
      ∀ offset offset' trace trace' state state', l.place offset offset' →
        l.trace trace trace' → l.state state state' →
        l.Alike (Node.walkAll setting nodes offset trace state)
          (Node.walkAll setting' nodes offset' trace' state')
  | [], _, offset, offset', trace, trace', state, state', place, traces, states => by
      rw [Node.walkAll, Node.walkAll]
      exact .inr (.inr ⟨.reached place, traces, states⟩)
  | node :: nodes, inside, offset, offset', trace, trace', state, state', place, traces,
      states => by
      have first : ∀ inner ∈ node.visit, l.meets inner.kind :=
        fun inner mem => inside inner (by simp [Node.visitAll, mem])
      have others : ∀ inner ∈ Node.visitAll nodes, l.meets inner.kind :=
        fun inner mem => inside inner (by simp [Node.visitAll, mem])
      rw [Node.walkAll_cons, Node.walkAll_cons]
      exact (Node.walk_alike lawful node first _ _ _ _ _ _ place traces states).andThen
        (fun stop trace state => Node.walkAll_keeps lawful.keeps nodes stop trace state)
        (fun stop trace state => Node.walkAll_keeps lawful.keeps' nodes stop trace state)
        (Node.walkAll_alike lawful nodes others)

theorem Node.walkAny_alike (lawful : l.Lawful setting setting') :
    ∀ (nodes : List Node), (∀ inner ∈ Node.visitAll nodes, l.meets inner.kind) →
      ∀ offset offset' trace trace' state state', l.place offset offset' →
        l.trace trace trace' → l.state state state' →
        l.Alike (Node.walkAny setting nodes offset trace state)
          (Node.walkAny setting' nodes offset' trace' state')
  | [], _, offset, offset', trace, trace', state, state', place, traces, states => by
      rw [Node.walkAny, Node.walkAny]
      exact .inr (.inr ⟨.failed, traces, states⟩)
  | ⟨kind, quantifier⟩ :: nodes, inside, offset, offset', trace, trace', state, state', place,
      traces, states => by
      have allowed : l.meets kind :=
        inside ⟨kind, quantifier⟩ (by simp [Node.visitAll, Node.visit])
      have below : ∀ node ∈ kind.visit, l.meets node.kind :=
        fun node mem => inside node (by simp [Node.visitAll, Node.visit, mem])
      have others : ∀ inner ∈ Node.visitAll nodes, l.meets inner.kind :=
        fun inner mem => inside inner (by simp [Node.visitAll, mem])
      rw [Node.walkAny_cons, Node.walkAny_cons]
      exact (Kind.walk_alike lawful kind allowed below _ _ _ _ _ _ place traces states).orElse
        (fun trace state => Node.walkAny_keeps lawful.keeps nodes offset trace state)
        (fun trace state => Node.walkAny_keeps lawful.keeps' nodes offset' trace state)
        (fun trace trace' state state' =>
          Node.walkAny_alike lawful nodes others _ _ _ _ _ _ place)

/-- Walks of a sequence go alike if their references do. -/
theorem Sequence.walk_alike (lawful : l.Lawful setting setting') :
    ∀ (sequence : Sequence), (∀ inner ∈ sequence.visit, l.meets inner.kind) →
      ∀ offset offset' trace trace' state state', l.place offset offset' →
        l.trace trace trace' → l.state state state' →
        l.Alike (sequence.walk setting offset trace state)
          (sequence.walk setting' offset' trace' state')
  | .only nodes, inside, offset, offset', trace, trace', state, state', place, traces,
      states => by
      have alike := Node.walkAll_alike lawful nodes
        (by simpa only [Sequence.visit] using inside) _ _ _ _ _ _ place traces states
      rw [Sequence.walk_only, Sequence.walk_only]
      exact alike.orElse (fun _ _ off => off) (fun _ _ off => off)
        fun _ _ _ _ _ states => .inr (.inr ⟨.failed, traces, states⟩)
  | .either nodes alternate, inside, offset, offset', trace, trace', state, state', place, traces,
      states => by
      have first : ∀ inner ∈ Node.visitAll nodes, l.meets inner.kind :=
        fun inner mem => inside inner (by simp [Sequence.visit, mem])
      have others : ∀ inner ∈ alternate.visit, l.meets inner.kind :=
        fun inner mem => inside inner (by simp [Sequence.visit, mem])
      rw [Sequence.walk_either, Sequence.walk_either]
      exact (Node.walkAll_alike lawful nodes first _ _ _ _ _ _ place traces states).orElse
        (fun _ state => alternate.walk_keeps lawful.keeps offset trace state)
        (fun _ state => alternate.walk_keeps lawful.keeps' offset' trace' state)
        (fun _ _ state state' _ states =>
          Sequence.walk_alike lawful alternate others _ _ _ _ _ _ place traces states)

end

end Walks

end TextGrammar
