import TextGrammar.Proofs.Parse.Progress

/-!
What a parse does with a name.

`Grammar.Resolution` lists the ways: a token is matched, a production is
recalled, stopped by the limit, refused or entered, and a name that stands for
nothing ends the parse. `Grammar.resolution` says that there is no other; the
equations before it say when each of them is taken. What follows takes tokens
and entered productions apart in the same way.
-/

namespace TextGrammar.Grammar

variable {grammar : Grammar} {text : Text} {name : String} {offset : Nat} {trace : Trace}
  {state : ParseState} {expression : Expression}

section Equations

/-- A token is matched there and then. -/
theorem resolveWithin_of_token {pattern : Pattern} (found : grammar.token? name = some pattern)
    (room : Nat) :
    grammar.resolveWithin text room name offset trace state =
      grammar.matchToken text name pattern offset trace state := by
  unfold resolveWithin
  simp only [found]

/-- A name that stands for nothing ends the parse. -/
theorem resolveWithin_of_unknown (noToken : grammar.token? name = none)
    (noProduction : grammar.production? name = none) (room : Nat) :
    grammar.resolveWithin text room name offset trace state =
      ⟨.raised (.unknownIdentifier name grammar.start), trace, state⟩ := by
  unfold resolveWithin
  simp only [noToken, noProduction]

/-- What is remembered is used, before anything else is asked. -/
theorem resolveWithin_of_remembered {outcome : Remembered} (noToken : grammar.token? name = none)
    (found : grammar.production? name = some expression)
    (remembered : grammar.remembered? ⟨name, offset⟩ state.progress = some outcome) (room : Nat) :
    grammar.resolveWithin text room name offset trace state =
      concludeProduction outcome trace (state.report (.recalled name offset)) := by
  unfold resolveWithin
  simp only [noToken, found, remembered]

/-- Without room for another production the parse ends. -/
theorem resolveWithin_zero (noToken : grammar.token? name = none)
    (found : grammar.production? name = some expression)
    (forgotten : grammar.remembered? ⟨name, offset⟩ state.progress = none) :
    grammar.resolveWithin text 0 name offset trace state =
      ⟨.raised (.recursionLimit name offset), trace, state.report (.limitReached name offset)⟩ := by
  unfold resolveWithin
  simp only [noToken, found, forgotten]

/-- A production is not entered again at an offset where it is active. -/
theorem resolveWithin_of_active (noToken : grammar.token? name = none)
    (found : grammar.production? name = some expression)
    (forgotten : grammar.remembered? ⟨name, offset⟩ state.progress = none)
    (active : ⟨name, offset⟩ ∈ state.progress.active) (room : Nat) :
    grammar.resolveWithin text (room + 1) name offset trace state =
      ⟨.failed, trace, (state.report (.refused name offset)).update (·.refuse)⟩ := by
  rw [resolveWithin]
  simp only [noToken, found, forgotten, Progress.isActive_iff.mpr active, if_true]

/-- Any other production is matched, with less room for those inside it. -/
theorem resolveWithin_of_inactive (noToken : grammar.token? name = none)
    (found : grammar.production? name = some expression)
    (forgotten : grammar.remembered? ⟨name, offset⟩ state.progress = none)
    (inactive : ⟨name, offset⟩ ∉ state.progress.active) (room : Nat) :
    grammar.resolveWithin text (room + 1) name offset trace state =
      grammar.matchProduction text (grammar.resolveWithin text room) expression ⟨name, offset⟩
        trace state := by
  have refused : state.progress.isActive ⟨name, offset⟩ = false := by
    simpa [Progress.isActive] using inactive
  rw [resolveWithin]
  simp only [noToken, found, forgotten, refused]
  rfl

end Equations

/-- The ways in which a parse with some room left resolves a name. -/
inductive Resolution (grammar : Grammar) (text : Text) (name : String) (offset : Nat)
    (trace : Trace) (state : ParseState) : Nat → ParseWalk → Prop where
  | token {room : Nat} {pattern : Pattern} : grammar.token? name = some pattern →
      Resolution grammar text name offset trace state room
        (grammar.matchToken text name pattern offset trace state)
  | unknown {room : Nat} : grammar.token? name = none → grammar.production? name = none →
      Resolution grammar text name offset trace state room
        ⟨.raised (.unknownIdentifier name grammar.start), trace, state⟩
  | recalled {room : Nat} {expression : Expression} {outcome : Remembered} :
      grammar.token? name = none → grammar.production? name = some expression →
      grammar.remembered? ⟨name, offset⟩ state.progress = some outcome →
      Resolution grammar text name offset trace state room
        (concludeProduction outcome trace (state.report (.recalled name offset)))
  | limited {expression : Expression} :
      grammar.token? name = none → grammar.production? name = some expression →
      grammar.remembered? ⟨name, offset⟩ state.progress = none →
      Resolution grammar text name offset trace state 0
        ⟨.raised (.recursionLimit name offset), trace, state.report (.limitReached name offset)⟩
  | refused {room : Nat} {expression : Expression} :
      grammar.token? name = none → grammar.production? name = some expression →
      grammar.remembered? ⟨name, offset⟩ state.progress = none →
      ⟨name, offset⟩ ∈ state.progress.active →
      Resolution grammar text name offset trace state (room + 1)
        ⟨.failed, trace, (state.report (.refused name offset)).update (·.refuse)⟩
  | entered {room : Nat} {expression : Expression} :
      grammar.token? name = none → grammar.production? name = some expression →
      grammar.remembered? ⟨name, offset⟩ state.progress = none →
      ⟨name, offset⟩ ∉ state.progress.active →
      Resolution grammar text name offset trace state (room + 1)
        (grammar.matchProduction text (grammar.resolveWithin text room) expression ⟨name, offset⟩
          trace state)

/-- A name is resolved in one of these ways. -/
theorem resolution (grammar : Grammar) (text : Text) (room : Nat) (name : String) (offset : Nat)
    (trace : Trace) (state : ParseState) :
    grammar.Resolution text name offset trace state room
      (grammar.resolveWithin text room name offset trace state) := by
  cases noToken : grammar.token? name with
  | some pattern =>
      rw [resolveWithin_of_token noToken]
      exact .token noToken
  | none =>
      cases found : grammar.production? name with
      | none =>
          rw [resolveWithin_of_unknown noToken found]
          exact .unknown noToken found
      | some expression =>
          cases remembered : grammar.remembered? ⟨name, offset⟩ state.progress with
          | some outcome =>
              rw [resolveWithin_of_remembered noToken found remembered]
              exact .recalled noToken found remembered
          | none =>
              cases room with
              | zero =>
                  rw [resolveWithin_zero noToken found remembered]
                  exact .limited noToken found remembered
              | succ room =>
                  by_cases active : (⟨name, offset⟩ : ProductionAt) ∈ state.progress.active
                  · rw [resolveWithin_of_active noToken found remembered active]
                    exact .refused noToken found remembered active
                  · rw [resolveWithin_of_inactive noToken found remembered active]
                    exact .entered noToken found remembered active

/-! ### Tokens -/

/-- A token fails at the place where it is expected, or leaves the progress as it
is; which of the two doesn't depend on the state. -/
theorem matchToken_cases (grammar : Grammar) (text : Text) (name : String) (pattern : Pattern)
    (offset : Nat) (trace : Trace) :
    (∃ start, ∀ state, grammar.matchToken text name pattern offset trace state =
      ⟨.failed, trace, (state.report (.tokenFailed name start)).update (·.expect name start)⟩) ∨
    ∃ outcome after events, (∀ error, outcome ≠ .raised error) ∧
      ∀ state, grammar.matchToken text name pattern offset trace state =
        ⟨outcome, after, { state with events := events ++ state.events }⟩ := by
  unfold matchToken
  split
  · exact .inr ⟨.misplaced, trace, [], by simp, fun state => rfl⟩
  · rename_i start _
    split
    · exact .inl ⟨start, fun state => rfl⟩
    · split
      · exact .inr ⟨.misplaced, trace, [], by simp, fun state => rfl⟩
      · exact .inr ⟨_, _, [_], by simp, fun state => rfl⟩

/-! ### Productions -/

/-- What a production comes to when its expression has been walked, if the walk
has matched or failed. -/
def conclusion? (name : String) (walked : ParseWalk) : Option Remembered :=
  match walked.outcome with
  | .reached stop => some (some (stop, .production name walked.trace.trees.reverse))
  | .failed => some none
  | .raised _ => none
  | .misplaced => none

section Productions

variable {resolve : Resolver Error ParseState} {key : ProductionAt} {walked : ParseWalk}

/-- A production whose expression matched or failed is left. -/
theorem matchProduction_of_concluded {outcome : Remembered}
    (walks : expression.root.walk { text, resolve } key.offset {} (state.update (·.enter key)) =
      walked)
    (concluded : conclusion? key.production walked = some outcome) :
    grammar.matchProduction text resolve expression key trace state =
      grammar.leaveProduction key state.progress.refusals outcome trace
        (walked.state.update (·.exit key)) := by
  unfold matchProduction
  simp only [walks]
  unfold conclusion? at concluded
  cases ends : walked.outcome with
  | reached | failed =>
      rw [ends] at concluded
      cases concluded
      rfl
  | raised | misplaced =>
      rw [ends] at concluded
      cases concluded

/-- Any other end of its expression is the end of the production, too. -/
theorem matchProduction_of_not_concluded
    (walks : expression.root.walk { text, resolve } key.offset {} (state.update (·.enter key)) =
      walked)
    (aborted : conclusion? key.production walked = none) :
    grammar.matchProduction text resolve expression key trace state =
      ⟨walked.outcome, trace, walked.state.update (·.exit key)⟩ := by
  unfold matchProduction
  simp only [walks]
  unfold conclusion? at aborted
  cases ends : walked.outcome with
  | reached | failed =>
      rw [ends] at aborted
      cases aborted
  | raised | misplaced => rfl

@[simp] theorem state_concludeProduction (outcome : Remembered) :
    (concludeProduction outcome trace state).state = state := by
  cases outcome with
  | none => rfl
  | some result => rfl

/-- Leaving a production concludes it, and may add to what is remembered. -/
theorem leaveProduction_eq (grammar : Grammar) (key : ProductionAt) (refusalsBefore : Nat)
    (outcome : Remembered) (trace : Trace) (state : ParseState) :
    ∃ after : ParseState,
      grammar.leaveProduction key refusalsBefore outcome trace state =
        concludeProduction outcome trace after ∧
      after.progress =
        if grammar.options.memoize ∧ state.progress.refusals = refusalsBefore then
          state.progress.remember key outcome
        else state.progress := by
  by_cases stores : grammar.options.memoize = true ∧ state.progress.refusals = refusalsBefore
  · refine ⟨_, congrArg (concludeProduction outcome trace) (if_pos stores), ?_⟩
    rw [if_pos stores]
    rfl
  · refine ⟨_, congrArg (concludeProduction outcome trace) (if_neg stores), ?_⟩
    rw [if_neg stores]
    rfl

/-- What is reported last of a production that is left is that. -/
theorem events_leaveProduction (grammar : Grammar) (key : ProductionAt) (refusalsBefore : Nat)
    (outcome : Remembered) (trace : Trace) (state : ParseState) :
    (grammar.leaveProduction key refusalsBefore outcome trace state).state.events =
      .left key.production key.offset (outcome.map Prod.snd) :: state.events := by
  unfold leaveProduction
  rw [state_concludeProduction]
  split <;> rfl

end Productions

end TextGrammar.Grammar
