import TextGrammar.Proofs.Parse.Growth
import TextGrammar.Proofs.Parse.Nesting
import TextGrammar.Proofs.Walk.Ends

/-!
The attempts at tokens that a parse makes.

Whenever a parse looks for a token, it reports whether the token matched, and it
reports this of nothing else. So the events of a parse tell all its attempts in their
order: what has been reported before an event of an attempt is what had been reported
when the attempt was made (`Grammar.attempts_iff`).
-/

namespace TextGrammar

/-- What is reported of an attempt at a token. -/
def ParseEvent.IsAttempt : ParseEvent → Prop
  | .tokenMatched _ _ _ => True
  | .tokenFailed _ _ => True
  | .recalled _ _ => False
  | .limitReached _ _ => False
  | .refused _ _ => False
  | .left _ _ _ => False

namespace Grammar

/-- What has to be reported of an attempt at a token: whether its pattern matches any
text from the offset on, after whitespace if that is skipped. -/
inductive Comes (grammar : Grammar) (text : Text) (name : String) (pattern : Pattern)
    (offset : Nat) : ParseEvent → Prop where
  | matched {start : Nat} {m : Match} : grammar.tokenStart? text offset = some start →
      pattern.matchAt? text start = some m → m.isEmpty = false →
      Comes grammar text name pattern offset (.tokenMatched name start m.stop)
  | failed {start : Nat} : grammar.tokenStart? text offset = some start →
      (∀ m, pattern.matchAt? text start = some m → m.isEmpty = true) →
      Comes grammar text name pattern offset (.tokenFailed name start)

/-- A parse makes an attempt at a token that this has to be reported of, where these
events have been reported, the last one first. -/
def Attempts (grammar : Grammar) (text : Text) (earlier : List ParseEvent)
    (event : ParseEvent) : Prop :=
  ∃ room name offset trace state pattern,
    grammar.Reaches text room ⟨.kind (.reference name), offset, trace, state⟩ ∧
      grammar.token? name = some pattern ∧ grammar.Comes text name pattern offset event ∧
      state.events = earlier

section Tokens

variable {grammar : Grammar} {text : Text} {name : String} {pattern : Pattern} {offset : Nat}
  {event event' : ParseEvent}

theorem Comes.unique (comes : grammar.Comes text name pattern offset event)
    (comes' : grammar.Comes text name pattern offset event') : event = event' := by
  cases comes with
  | matched starts found some =>
      cases comes' with
      | matched starts' found' _ =>
          cases starts.symm.trans starts'
          cases found.symm.trans found'
          rfl
      | failed starts' none =>
          cases starts.symm.trans starts'
          exact absurd (none _ found) (by simp [some])
  | failed starts none =>
      cases comes' with
      | matched starts' found some =>
          cases starts.symm.trans starts'
          exact absurd (none _ found) (by simp [some])
      | failed starts' _ =>
          cases starts.symm.trans starts'
          rfl

/-- What comes of an attempt at a place is what is reported of it. -/
theorem matchToken_comes (name : String) (pattern : Pattern) (place : text.IsPlace offset)
    (trace : Trace) (state : ParseState) :
    ∃ event, grammar.Comes text name pattern offset event ∧
      (grammar.matchToken text name pattern offset trace state).state.events =
        event :: state.events := by
  obtain ⟨start, starts, _⟩ := exists_skip grammar id place
  unfold matchToken
  rw [show grammar.tokenStart? text offset = some start from starts]
  simp only
  split
  · rename_i unmatched
    refine ⟨.tokenFailed name start, .failed starts ?_, rfl⟩
    intro m found
    simpa [found] using unmatched
  · rename_i m matched
    obtain ⟨found, some⟩ := Option.filter_eq_some_iff.mp matched
    have some : m.isEmpty = false := by simpa using some
    obtain ⟨value, between, _⟩ := Pattern.exists_slice?_of_matchAt? found some
    simp only [between]
    exact ⟨.tokenMatched name start m.stop, .matched starts found some, rfl⟩

end Tokens

/-! ### Every attempt is reported -/

variable {grammar : Grammar} {text : Text} {room : Nat} {activation : Activation ParseState}
  {event : ParseEvent} {earlier : List ParseEvent}

/-- What has been reported where a walk of a parse ends stays reported. -/
theorem Reaches.events_walk (closed : grammar.Closed)
    (reaches : grammar.Reaches text room activation) :
    (activation.walk { text, resolve := grammar.resolveWithin text room }).state.events <:+
      (grammar.walkStart text).state.events := by
  induction reaches with
  | start =>
      rw [walkStart_eq]
      exact List.suffix_refl _
  | @call room caller callee reaches calls ih =>
      obtain ⟨active, stack, limit, sound⟩ := reaches.sound closed
      have lawful := resolveWithin_lawful closed text room active stack limit
      have keeps : Setting.Keeps { text, resolve := grammar.resolveWithin text room } fun after =>
          (callee.walk { text, resolve := grammar.resolveWithin text room }).state.events <:+
            after.events :=
        fun name offset trace state kept =>
          kept.trans (grammar.events_resolveWithin text room name offset trace state)
      exact (calls.keeps lawful keeps sound (List.suffix_refl _)).trans ih
  | @enter room name offset trace state expression _ noToken found forgotten inactive ih =>
      rw [Activation.walk, Kind.walk] at ih
      simp only at ih
      rw [resolveWithin_of_inactive noToken found forgotten inactive] at ih
      exact (events_matchProduction rfl).trans ih

theorem Attempts.suffix (closed : grammar.Closed) (attempts : grammar.Attempts text earlier event) :
    event :: earlier <:+ (grammar.walkStart text).state.events := by
  obtain ⟨room, name, offset, trace, state, pattern, reaches, found, comes, rfl⟩ := attempts
  obtain ⟨_, _, _, sound⟩ := reaches.sound closed
  obtain ⟨event', comes', reported⟩ := matchToken_comes name pattern sound.place trace state
  obtain rfl := comes.unique comes'
  have stays := reaches.events_walk closed
  rw [Activation.walk, Kind.walk] at stays
  simp only at stays
  rwa [resolveWithin_of_token found, reported] at stays

/-! ### Nothing else is reported -/

/-- All that has been reported of attempts was reported when the attempts were made. -/
def Accounted (grammar : Grammar) (text : Text) (events : List ParseEvent) : Prop :=
  ∀ event earlier, event.IsAttempt → event :: earlier <:+ events →
    grammar.Attempts text earlier event

theorem accounted_nil (grammar : Grammar) (text : Text) : grammar.Accounted text [] := by
  intro event earlier _ among
  cases List.suffix_nil.mp among

theorem Accounted.cons {events : List ParseEvent} (accounted : grammar.Accounted text events)
    (attempts : event.IsAttempt → grammar.Attempts text events event) :
    grammar.Accounted text (event :: events) := by
  intro event' earlier isAttempt among
  rcases List.suffix_cons_iff.mp among with same | before
  · obtain ⟨rfl, rfl⟩ := List.cons.inj same
    exact attempts isAttempt
  · exact accounted event' earlier isAttempt before

/-- The walks inside a walk of a parse are walks of the parse. -/
theorem Reaches.within {inner : Activation ParseState}
    (reaches : grammar.Reaches text room activation)
    (inside : activation.Reaches { text, resolve := grammar.resolveWithin text room } inner) :
    grammar.Reaches text room inner := by
  induction inside with
  | origin => exact reaches
  | call _ calls ih => exact .call ih calls

/-- A walk of a parse reports attempts where they are made. -/
theorem Reaches.accounted (closed : grammar.Closed) :
    ∀ {room : Nat} {activation : Activation ParseState},
      grammar.Reaches text room activation → grammar.Accounted text activation.state.events →
      grammar.Accounted text
        (activation.walk { text, resolve := grammar.resolveWithin text room }).state.events := by
  -- The induction is on the room, for all walks that have it; what a walk leaves
  -- accounted for is then a matter of the references that it reaches.
  intro room
  induction room using Nat.strongRecOn with
  | ind room ih =>
      intro activation reaches accounted
      refine Activation.walk_keeps_of_reaches (p := fun state : ParseState =>
        grammar.Accounted text state.events) ?_ accounted
      intro name offset trace state inside accounted
      have here := reaches.within inside
      have resolution := grammar.resolution text room name offset trace state
      simp only
      generalize grammar.resolveWithin text room name offset trace state = walked
        at resolution ⊢
      cases resolution with
      | @token room pattern found =>
          obtain ⟨_, _, _, sound⟩ := here.sound closed
          obtain ⟨event, comes, reported⟩ := matchToken_comes name pattern sound.place trace state
          rw [reported]
          exact accounted.cons fun _ =>
            ⟨room, name, offset, trace, state, pattern, here, found, comes, rfl⟩
      | unknown _ _ => exact accounted
      | recalled _ _ _ =>
          rw [state_concludeProduction]
          exact accounted.cons False.elim
      | limited _ _ _ => exact accounted.cons False.elim
      | refused _ _ _ _ => exact accounted.cons False.elim
      | @entered room expression noToken found forgotten inactive =>
          have after := ih room (Nat.lt_succ_self room)
            (.enter here noToken found forgotten inactive) accounted
          generalize walks : expression.root.walk
            { text, resolve := grammar.resolveWithin text room } offset {}
              (state.update (·.enter ⟨name, offset⟩)) = walked
          rw [Activation.walk, walks] at after
          cases concluded : conclusion? name walked with
          | none =>
              rw [matchProduction_of_not_concluded walks concluded]
              exact after
          | some outcome =>
              rw [matchProduction_of_concluded walks concluded, events_leaveProduction]
              exact after.cons False.elim

/-- A parse reports all its attempts at tokens, and each where it is made. -/
theorem attempts_iff (closed : grammar.Closed) (isAttempt : event.IsAttempt) :
    grammar.Attempts text earlier event ↔
      event :: earlier <:+ (grammar.walkStart text).state.events := by
  constructor
  · exact fun attempts => attempts.suffix closed
  · intro among
    have begun : grammar.Reaches text _ _ := .start
    have accounted := begun.accounted closed (grammar.accounted_nil text)
    rw [Activation.walk, Kind.walk] at accounted
    simp only at accounted
    rw [← walkStart_eq] at accounted
    exact accounted event earlier isAttempt among

/-- An attempt that is among the events of a parse was made. -/
theorem exists_attempts_of_mem (closed : grammar.Closed) (isAttempt : event.IsAttempt)
    (mem : event ∈ (grammar.run text).events) :
    ∃ earlier, grammar.Attempts text earlier event := by
  obtain ⟨later, earlier, split⟩ := List.append_of_mem (List.mem_reverse.mp mem)
  exact ⟨earlier, (attempts_iff closed isAttempt).mpr ⟨later, split.symm⟩⟩

end Grammar

end TextGrammar
