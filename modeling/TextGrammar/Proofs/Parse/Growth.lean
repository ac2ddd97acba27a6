import TextGrammar.Proofs.Parse.Resolution
import TextGrammar.Proofs.Walk.Persistence

/-!
What a parse never takes back.

While a name is resolved, refusals are only added, what was expected stays
expected or is left behind by something further on, and nothing remembered is
forgotten. In the end the same productions are active as before, whatever has
been entered and left in between (`Grammar.resolveWithin_grows`). What has been
reported stays reported (`Grammar.events_resolveWithin`).
-/

namespace TextGrammar

namespace Progress

/-- The progress has all that another one has. -/
structure Covers (progress other : Progress) : Prop where
  refusals : other.refusals ≤ progress.refusals
  absorbs : progress.Absorbs other
  remembers : ∀ key, other.Remembers key → progress.Remembers key

/-- The progress after a walk has all that it had before, with the same
productions active. -/
structure Grows (before after : Progress) : Prop where
  active : after.active = before.active
  covers : after.Covers before

theorem Covers.refl (progress : Progress) : progress.Covers progress where
  refusals := Nat.le_refl _
  absorbs := .refl progress
  remembers := fun _ remembers => remembers

theorem Covers.trans {one two three : Progress} (first : one.Covers two)
    (second : two.Covers three) : one.Covers three where
  refusals := Nat.le_trans second.refusals first.refusals
  absorbs := first.absorbs.trans second.absorbs
  remembers := fun key remembers => first.remembers key (second.remembers key remembers)

variable (progress : Progress) (key : ProductionAt)

theorem covers_expect (name : String) (offset : Nat) :
    (progress.expect name offset).Covers progress where
  refusals := Nat.le_of_eq (refusals_expect progress name offset).symm
  absorbs := absorbs_expect progress name offset
  remembers := by
    intro key
    unfold Remembers
    rw [memo_expect]
    exact id

theorem covers_refuse : progress.refuse.Covers progress where
  refusals := Nat.le_succ _
  absorbs := .refl progress
  remembers := fun _ remembers => remembers

theorem covers_enter : (progress.enter key).Covers progress where
  refusals := Nat.le_refl _
  absorbs := .refl progress
  remembers := fun _ remembers => remembers

theorem covers_exit : (progress.exit key).Covers progress where
  refusals := Nat.le_refl _
  absorbs := .refl progress
  remembers := fun _ remembers => remembers

theorem covers_remember (outcome : Remembered) :
    (progress.remember key outcome).Covers progress where
  refusals := Nat.le_refl _
  absorbs := .refl progress
  remembers := fun _ remembers => remembers_remember.mpr (.inr remembers)

theorem Grows.refl : progress.Grows progress where
  active := rfl
  covers := .refl progress

variable {progress key}

theorem Grows.trans {one two three : Progress} (first : one.Grows two) (second : two.Grows three) :
    one.Grows three where
  active := second.active.trans first.active
  covers := second.covers.trans first.covers

/-- What has grown while a production was active has grown when it is left. -/
theorem Grows.exit {after : Progress} (grows : (progress.enter key).Grows after) :
    progress.Grows (after.exit key) where
  active := by rw [active_exit, grows.active, active_enter, List.erase_cons_head]
  covers := (covers_exit after key).trans (grows.covers.trans (covers_enter progress key))

end Progress

namespace Grammar

variable {grammar : Grammar} {text : Text}

/-- To match a token takes nothing back of the progress. -/
theorem matchToken_grows {name : String} {pattern : Pattern} {offset : Nat} {trace : Trace}
    {state : ParseState} :
    state.progress.Grows
      (grammar.matchToken text name pattern offset trace state).state.progress := by
  rcases grammar.matchToken_cases text name pattern offset trace with
    ⟨start, fails⟩ | ⟨outcome, after, events, _, passes⟩
  · rw [fails state]
    exact ⟨Progress.active_expect .., Progress.covers_expect ..⟩
  · rw [passes state]
    exact .refl _

/-- To match a production takes nothing back, if its walk takes nothing back. -/
theorem matchProduction_grows (grammar : Grammar) {resolve : Resolver Error ParseState}
    {expression : Expression} {key : ProductionAt} (trace : Trace) {state : ParseState}
    (grows : (state.progress.enter key).Grows (expression.root.walk { text, resolve } key.offset {}
      (state.update (·.enter key))).state.progress) :
    state.progress.Grows
      (grammar.matchProduction text resolve expression key trace state).state.progress := by
  generalize walks : expression.root.walk { text, resolve } key.offset {}
    (state.update (·.enter key)) = walked at grows
  cases concluded : conclusion? key.production walked with
  | none =>
      rw [matchProduction_of_not_concluded walks concluded]
      exact grows.exit
  | some outcome =>
      rw [matchProduction_of_concluded walks concluded]
      obtain ⟨after, leaves, progress⟩ := grammar.leaveProduction_eq key state.progress.refusals
        outcome trace (walked.state.update (·.exit key))
      rw [leaves, state_concludeProduction, progress]
      split
      · exact grows.exit.trans ⟨rfl, Progress.covers_remember ..⟩
      · exact grows.exit

/-- What has grown keeps growing while names are resolved, if resolving any name
lets progress grow. -/
theorem keeps_grows (text : Text) {resolve : Resolver Error ParseState} (before : Progress)
    (grows : ∀ name offset trace state, Progress.Grows state.progress
      (resolve name offset trace state).state.progress) :
    Setting.Keeps { text, resolve } fun state => before.Grows state.progress :=
  fun name offset trace state grown => grown.trans (grows name offset trace state)

/-- Resolving a name takes nothing back, and leaves the same productions active. -/
theorem resolveWithin_grows (grammar : Grammar) (text : Text) (room : Nat) :
    ∀ name offset trace state, Progress.Grows state.progress
      (grammar.resolveWithin text room name offset trace state).state.progress := by
  induction room using Nat.strongRecOn with
  | ind room ih =>
      intro name offset trace state
      have resolution := grammar.resolution text room name offset trace state
      generalize grammar.resolveWithin text room name offset trace state = walked at resolution ⊢
      cases resolution with
      | token _ => exact matchToken_grows
      | unknown _ _ => exact .refl _
      | recalled _ _ _ =>
          rw [state_concludeProduction]
          exact .refl _
      | limited _ _ _ => exact .refl _
      | refused _ _ _ _ => exact ⟨rfl, Progress.covers_refuse _⟩
      | @entered room expression _ _ _ _ =>
          have keeps := keeps_grows text (state.progress.enter ⟨name, offset⟩)
            (ih room (Nat.lt_succ_self room))
          refine grammar.matchProduction_grows trace ?_
          exact expression.root.walk_keeps keeps offset {} _ (.refl _)

/-- A walk takes nothing back, and leaves the same productions active. -/
theorem walk_grows (grammar : Grammar) (text : Text) (room : Nat) (sequence : Sequence)
    (offset : Nat) (trace : Trace) (state : ParseState) : Progress.Grows state.progress
      (sequence.walk { text, resolve := grammar.resolveWithin text room } offset trace
        state).state.progress :=
  sequence.walk_keeps (keeps_grows text state.progress (grammar.resolveWithin_grows text room))
    offset trace state (.refl _)

/-! ### Events are never taken back -/

/-- What is reported inside a production stays reported after it. -/
theorem events_matchProduction {expression : Expression} {key : ProductionAt} {trace : Trace}
    {state : ParseState} {walked : ParseWalk} {resolve : Resolver Error ParseState}
    (walks : expression.root.walk { text, resolve } key.offset {} (state.update (·.enter key)) =
      walked) :
    walked.state.events <:+
      (grammar.matchProduction text resolve expression key trace state).state.events := by
  cases concluded : conclusion? key.production walked with
  | none =>
      rw [matchProduction_of_not_concluded walks concluded]
      exact List.suffix_refl _
  | some outcome =>
      rw [matchProduction_of_concluded walks concluded, events_leaveProduction]
      exact List.suffix_cons _ _

/-- What was reported before a name is resolved stays reported after it. -/
theorem events_resolveWithin (grammar : Grammar) (text : Text) (room : Nat) :
    ∀ name offset trace state,
      state.events <:+ (grammar.resolveWithin text room name offset trace state).state.events := by
  induction room using Nat.strongRecOn with
  | ind room ih =>
      intro name offset trace state
      have resolution := grammar.resolution text room name offset trace state
      generalize grammar.resolveWithin text room name offset trace state = walked at resolution ⊢
      cases resolution with
      | @token _ pattern _ =>
          rcases grammar.matchToken_cases text name pattern offset trace with
            ⟨start, fails⟩ | ⟨outcome, after, events, _, passes⟩
          · rw [fails state]
            exact List.suffix_cons _ _
          · rw [passes state]
            exact List.suffix_append _ _
      | unknown _ _ => exact List.suffix_refl _
      | recalled _ _ _ =>
          rw [state_concludeProduction]
          exact List.suffix_cons _ _
      | limited _ _ _ => exact List.suffix_cons _ _
      | refused _ _ _ _ => exact List.suffix_cons _ _
      | @entered room expression _ _ _ _ =>
          have keeps : Setting.Keeps { text, resolve := grammar.resolveWithin text room }
              fun after => state.events <:+ after.events :=
            fun name offset trace after kept =>
              kept.trans (ih room (Nat.lt_succ_self room) name offset trace after)
          refine List.IsSuffix.trans ?_ (events_matchProduction rfl)
          exact expression.root.walk_keeps keeps offset {} _ (List.suffix_refl _)

end Grammar

end TextGrammar
