import TextGrammar.Proofs.Grammar.Compiled
import TextGrammar.Proofs.Parse.Growth
import TextGrammar.Proofs.Walk.Likeness

/-!
Why productions may be remembered.

What a production came to is remembered only if nothing was refused on the way,
but later on it is recalled whatever is active then. That is right for two
reasons. Whatever was entered on the way is remembered too, so it isn't active
when the production is recalled; and whatever was expected on the way is expected
still. So matching the production again, without any memory, would neither be
refused anywhere nor expect anything new, and would come to the same
(`Grammar.Repeatable`). `Grammar.Echo` is that second matching beside the first.
-/

namespace TextGrammar

namespace Grammar

def forgetful (grammar : Grammar) : Grammar :=
  { grammar with options := { grammar.options with memoize := false } }

/-- The error that there is no room for another production. -/
def IsLimit (error : Error) : Prop :=
  ∃ name offset, error = .recursionLimit name offset

/-- A walk that ran into the recursion limit, or left the text. -/
def Limited (walked : ParseWalk) : Prop :=
  walked.Gone IsLimit fun _ => False

/-- To match the production again without any memory would come to the same and
change nothing, while nothing that is remembered is active and all that was
expected is expected. -/
def Repeatable (grammar : Grammar) (text : Text) (progress : Progress) (key : ProductionAt)
    (outcome : Remembered) : Prop :=
  ∀ room trace (state : ParseState),
    (∀ other, progress.Remembers other → other ∉ state.progress.active) →
    state.progress.Absorbs progress →
    Limited (grammar.forgetful.resolveWithin text room key.production key.offset trace state) ∨
      ∃ events, grammar.forgetful.resolveWithin text room key.production key.offset trace state =
        concludeProduction outcome trace ⟨state.progress, events⟩

/-- What is remembered is not active, and is what matching it again would come to. -/
structure Faithful (grammar : Grammar) (text : Text) (progress : Progress) : Prop where
  inactive : ∀ key, progress.Remembers key → key ∉ progress.active
  repeatable : ∀ key outcome, (key, outcome) ∈ progress.memo →
    grammar.Repeatable text progress key outcome

/-- A walk with memory beside one without, in which certain productions are
active. The first one must not be refused anything and must not get beyond what
is known in the end; then the second one comes to the same and changes nothing. -/
def echo (grammar : Grammar) (text : Text) (final : Progress) (active : List ProductionAt)
    (base : Progress) : Likeness Error ParseState Error ParseState where
  meets := fun _ => True
  place := Eq
  trace := Eq
  state := fun state state' => grammar.Faithful text state.progress ∧
    state.progress.active = active ∧ state.progress.refusals = final.refusals ∧
      state'.progress = base
  error := fun _ _ => False
  lost := fun _ => True
  off := fun state => ¬ final.Covers state.progress
  lost' := IsLimit
  off' := fun _ => False

/-- Every walk with memory has its echo, wherever all that is expected in the end
is expected, and nothing is active that is remembered in the end. -/
def Echoes (grammar : Grammar) (text : Text) (room : Nat) : Prop :=
  ∀ final active base room', base.Absorbs final →
    (∀ key ∈ base.active, final.Remembers key → key ∈ active) →
    (grammar.echo text final active base).Lawful
      { text, resolve := grammar.resolveWithin text room }
      { text, resolve := grammar.forgetful.resolveWithin text room' }

variable {grammar : Grammar} {text : Text} {room : Nat} {key : ProductionAt}
  {expression : Expression} {trace : Trace} {state : ParseState} {walked : ParseWalk}
  {outcome : Remembered} {progress : Progress}

/-! ### Without memory -/

theorem remembered?_forgetful : grammar.forgetful.remembered? key progress = none := by
  simp [remembered?, forgetful]

/-- Without memory a production is concluded with the progress as it is. -/
theorem leaveProduction_forgetful (grammar : Grammar) (key : ProductionAt) (refusalsBefore : Nat)
    (outcome : Remembered) (trace : Trace) (state : ParseState) :
    ∃ events, grammar.forgetful.leaveProduction key refusalsBefore outcome trace state =
      concludeProduction outcome trace ⟨state.progress, events⟩ := by
  obtain ⟨after, leaves, unchanged⟩ :=
    grammar.forgetful.leaveProduction_eq key refusalsBefore outcome trace state
  have forgets : grammar.forgetful.options.memoize = false := rfl
  rw [forgets, if_neg (by simp)] at unchanged
  refine ⟨after.events, ?_⟩
  rw [leaves, ← unchanged]

/-! ### Conclusions -/

/-- What has dropped out has come to nothing. -/
theorem conclusion?_of_gone {lost : Error → Prop} {off : ParseState → Prop} {name : String}
    (gone : walked.Gone lost off) (on : ¬ off walked.state) :
    conclusion? name walked = none := by
  unfold conclusion?
  rcases gone with misplaced | ⟨error, raised, _⟩ | isOff
  · rw [misplaced]
  · rw [raised]
  · exact absurd isOff on

/-- Walks that end alike, with the same trace, come to the same. -/
theorem conclusion?_of_close {l : Likeness Error ParseState Error ParseState}
    {walked' : ParseWalk} (place : l.place = Eq) (trace : l.trace = Eq)
    (close : l.Close walked walked') (name : String) :
    conclusion? name walked' = conclusion? name walked := by
  obtain ⟨outcome, after, state⟩ := walked
  obtain ⟨outcome', after', state'⟩ := walked'
  obtain ⟨ends, same, _⟩ := close
  rw [trace] at same
  simp only at same
  subst same
  cases ends with
  | reached next =>
      rw [place] at next
      subst next
      rfl
  | failed => rfl
  | raised _ => rfl

/-- What has come to nothing was raised, or left the text. -/
theorem gone_of_not_concluded {name : String} (aborted : conclusion? name walked = none) :
    walked.outcome = .misplaced ∨ ∃ error, walked.outcome = .raised error := by
  unfold conclusion? at aborted
  split at aborted
  · cases aborted
  · cases aborted
  · exact .inr ⟨_, ‹_›⟩
  · exact .inl ‹_›

/-- Conclusions with the same outcome and trace are close if the states are. -/
theorem close_concludeProduction {l : Likeness Error ParseState Error ParseState}
    {state' : ParseState} (place : l.place = Eq) (trace' : l.trace = Eq)
    (states : l.state state state') :
    l.Close (concludeProduction outcome trace state) (concludeProduction outcome trace state') := by
  cases outcome with
  | none => exact ⟨.failed, by rw [trace']; rfl, states⟩
  | some result => exact ⟨.reached (by rw [place]), by rw [trace']; rfl, states⟩

/-- A production drops out with its expression. -/
theorem gone_matchProduction {lost : Error → Prop} {resolve : Resolver Error ParseState}
    (walks : expression.root.walk { text, resolve } key.offset {} (state.update (·.enter key)) =
      walked) (gone : walked.Gone lost fun _ => False) :
    (grammar.matchProduction text resolve expression key trace state).Gone lost fun _ => False := by
  rw [matchProduction_of_not_concluded walks (conclusion?_of_gone gone id)]
  rcases gone with misplaced | raised | off
  · exact .inl misplaced
  · exact .inr (.inl raised)
  · exact off.elim

/-! ### Remembering -/

theorem Repeatable.mono {later : Progress}
    (repeatable : grammar.Repeatable text progress key outcome)
    (covers : later.Covers progress) : grammar.Repeatable text later key outcome := by
  intro room trace state disjoint absorbs
  apply repeatable room trace state ?_ (absorbs.trans covers.absorbs)
  intro other remembers
  exact disjoint other (covers.remembers other remembers)

/-- Progress that remembers the same, with the same productions active. -/
theorem Faithful.grow {later : Progress} (faithful : grammar.Faithful text progress)
    (covers : later.Covers progress) (active : later.active = progress.active)
    (memo : later.memo = progress.memo) : grammar.Faithful text later where
  inactive := by
    intro key remembers
    unfold Progress.Remembers at remembers
    rw [memo] at remembers
    rw [active]
    exact faithful.inactive key remembers
  repeatable := by
    intro key outcome mem
    rw [memo] at mem
    exact (faithful.repeatable key outcome mem).mono covers

theorem Faithful.enter (faithful : grammar.Faithful text progress)
    (forgotten : ¬ progress.Remembers key) : grammar.Faithful text (progress.enter key) where
  inactive := by
    intro other remembers mem
    rcases List.mem_cons.mp mem with rfl | active
    · exact forgotten remembers
    · exact faithful.inactive other remembers active
  repeatable := faithful.repeatable

/-- What was remembered while a production was active stays right when it is left. -/
theorem Faithful.exit {after : Progress} (faithful : grammar.Faithful text after)
    (grows : (progress.enter key).Grows after) : grammar.Faithful text (after.exit key) where
  inactive := by
    intro other remembers
    rw [grows.exit.active]
    intro active
    apply faithful.inactive other remembers
    rw [grows.active]
    exact List.mem_cons_of_mem key active
  repeatable := faithful.repeatable

theorem Faithful.remember (faithful : grammar.Faithful text progress)
    (inactive : key ∉ progress.active)
    (repeatable : grammar.Repeatable text (progress.remember key outcome) key outcome) :
    grammar.Faithful text (progress.remember key outcome) where
  inactive := by
    intro other remembers
    rcases Progress.remembers_remember.mp remembers with rfl | old
    · exact inactive
    · exact faithful.inactive other old
  repeatable := by
    intro other found mem
    rcases Progress.mem_memo_remember.mp mem with new | ⟨old, _⟩
    · cases new
      exact repeatable
    · exact (faithful.repeatable other found old).mono (Progress.covers_remember ..)

/-- A production that came to an end without being refused anything comes to the
same when it is matched again without memory. -/
theorem resolveWithin_again {final : Progress} {state' : ParseState}
    (echoes : grammar.Echoes text room) (faithful : grammar.Faithful text state.progress)
    (noToken : grammar.token? key.production = none)
    (found : grammar.production? key.production = some expression)
    (forgotten : ¬ state.progress.Remembers key)
    (walks : expression.root.walk { text, resolve := grammar.resolveWithin text room } key.offset {}
      (state.update (·.enter key)) = walked)
    (concluded : conclusion? key.production walked = some outcome)
    (covers : final.Covers walked.state.progress)
    (unrefused : state.progress.refusals = final.refusals)
    (absorbs : state'.progress.Absorbs final)
    (apart : ∀ other ∈ state'.progress.active, final.Remembers other →
      other ∈ state.progress.active)
    (unentered : key ∉ state'.progress.active) (room' : Nat) (trace' : Trace) :
    Limited (grammar.forgetful.resolveWithin text room' key.production key.offset trace' state') ∨
      ∃ events, grammar.forgetful.resolveWithin text room' key.production key.offset trace' state' =
        concludeProduction outcome trace' ⟨state'.progress, events⟩ := by
  have resolution :=
    grammar.forgetful.resolution text room' key.production key.offset trace' state'
  generalize grammar.forgetful.resolveWithin text room' key.production key.offset trace' state' =
    again at resolution ⊢
  cases resolution with
  | token isToken => cases noToken.symm.trans isToken
  | unknown _ unknown => cases unknown.symm.trans found
  | recalled _ _ recalled => cases remembered?_forgetful.symm.trans recalled
  | limited _ _ _ => exact .inl (.inr (.inl ⟨_, rfl, _, _, rfl⟩))
  | refused _ _ _ active => exact absurd active unentered
  | @entered room' expression' _ found' _ _ =>
      cases found.symm.trans found'
      have apartInside : ∀ other ∈ key :: state'.progress.active, final.Remembers other →
          other ∈ key :: state.progress.active := by
        intro other mem remembers
        rcases List.mem_cons.mp mem with rfl | active
        · exact List.mem_cons_self
        · exact List.mem_cons_of_mem key (apart other active remembers)
      have lawful := echoes final (key :: state.progress.active) (state'.progress.enter key) room'
        absorbs apartInside
      have alike := expression.root.walk_alike lawful (fun _ _ => trivial) key.offset key.offset
        {} {} (state.update (·.enter key)) (state'.update (·.enter key)) rfl rfl
        ⟨faithful.enter forgotten, rfl, unrefused, rfl⟩
      rw [walks] at alike
      generalize walks' : expression.root.walk
        { text, resolve := grammar.forgetful.resolveWithin text room' } key.offset {}
          (state'.update (·.enter key)) = walked' at alike
      rcases alike with gone | gone | close
      · rw [conclusion?_of_gone gone (fun uncovered => uncovered covers)] at concluded
        cases concluded
      · exact .inl (gone_matchProduction walks' gone)
      · right
        have concluded' : conclusion? key.production walked' = some outcome := by
          rw [conclusion?_of_close rfl rfl close, concluded]
        rw [matchProduction_of_concluded walks' concluded']
        obtain ⟨events, leaves⟩ := grammar.leaveProduction_forgetful key
          state'.progress.refusals outcome trace' (walked'.state.update (·.exit key))
        refine ⟨events, ?_⟩
        rw [leaves, ParseState.progress_update, close.state.2.2.2, Progress.exit_enter]

/-- While nothing is refused, a production keeps what is remembered right. -/
theorem faithful_matchProduction (echoes : grammar.Echoes text room)
    (keeps : Setting.Keeps { text, resolve := grammar.resolveWithin text room }
      fun state => grammar.Faithful text state.progress)
    (faithful : grammar.Faithful text state.progress)
    (noToken : grammar.token? key.production = none)
    (found : grammar.production? key.production = some expression)
    (forgotten : ¬ state.progress.Remembers key) (inactive : key ∉ state.progress.active) :
    grammar.Faithful text (grammar.matchProduction text (grammar.resolveWithin text room) expression
      key trace state).state.progress := by
  generalize walks : expression.root.walk
    { text, resolve := grammar.resolveWithin text room } key.offset {}
      (state.update (·.enter key)) = walked
  have inside : grammar.Faithful text walked.state.progress := by
    rw [← walks]
    exact expression.root.walk_keeps keeps key.offset {} _ (faithful.enter forgotten)
  have grows : (state.progress.enter key).Grows walked.state.progress := by
    rw [← walks]
    exact grammar.walk_grows text room expression.root key.offset {} (state.update (·.enter key))
  have outside := inside.exit grows
  cases concluded : conclusion? key.production walked with
  | none =>
      rw [matchProduction_of_not_concluded walks concluded]
      exact outside
  | some outcome =>
      rw [matchProduction_of_concluded walks concluded]
      obtain ⟨after, leaves, progress⟩ := grammar.leaveProduction_eq key state.progress.refusals
        outcome trace (walked.state.update (·.exit key))
      rw [leaves, state_concludeProduction, progress]
      split
      · rename_i stored
        have final := (Progress.covers_remember (walked.state.progress.exit key) key outcome).trans
          (Progress.covers_exit ..)
        apply outside.remember
        · rw [grows.exit.active]
          exact inactive
        · intro room' trace' state' disjoint absorbs
          apply resolveWithin_again echoes faithful noToken found forgotten walks concluded final
            stored.2.symm absorbs
          · intro other active remembers
            exact absurd active (disjoint other remembers)
          · exact disjoint key (Progress.remembers_remember.mpr (.inl rfl))
      · exact outside

/-! ### Echoes -/

section Echo

variable {final : Progress} {active : List ProductionAt} {base : Progress} {name : String}
  {offset : Nat} {room' : Nat} {state' : ParseState}

/-- A token that is matched with memory is matched without it: if it fails, it was
expected already. -/
theorem alike_token {pattern : Pattern} (absorbs : base.Absorbs final)
    (states : (grammar.echo text final active base).state state state')
    (after : grammar.Faithful text
      (grammar.matchToken text name pattern offset trace state).state.progress) :
    (grammar.echo text final active base).Alike
      (grammar.matchToken text name pattern offset trace state)
      (grammar.matchToken text name pattern offset trace state') := by
  obtain ⟨_, isActive, unrefused, rfl⟩ := states
  rcases grammar.matchToken_cases text name pattern offset trace with
    ⟨start, fails⟩ | ⟨outcome, trace', events, unraised, passes⟩
  · rw [fails state] at after ⊢
    rw [fails state']
    by_cases covers : final.Covers (state.progress.expect name start)
    · refine .inr (.inr ⟨.failed, rfl, after, ?_, ?_, ?_⟩)
      · exact (Progress.active_expect ..).trans isActive
      · exact (Progress.refusals_expect ..).trans unrefused
      · exact Progress.expect_eq_self (absorbs.trans covers.absorbs)
    · exact .inl (.inr (.inr covers))
  · rw [passes state] at after ⊢
    rw [passes state']
    cases outcome with
    | reached stop => exact .inr (.inr ⟨.reached rfl, rfl, after, isActive, unrefused, rfl⟩)
    | failed => exact .inr (.inr ⟨.failed, rfl, after, isActive, unrefused, rfl⟩)
    | raised error => exact absurd rfl (unraised error)
    | misplaced => exact .inl (.inl rfl)

/-- What is recalled is what matching it once more comes to. -/
theorem alike_recalled (absorbs : base.Absorbs final)
    (apart : ∀ key ∈ base.active, final.Remembers key → key ∈ active)
    (states : (grammar.echo text final active base).state state state')
    (mem : (⟨name, offset⟩, outcome) ∈ state.progress.memo) :
    (grammar.echo text final active base).Alike
      (concludeProduction outcome trace (state.report (.recalled name offset)))
      (grammar.forgetful.resolveWithin text room' name offset trace state') := by
  obtain ⟨faithful, rfl, unrefused, rfl⟩ := states
  by_cases covers : final.Covers state.progress
  · have disjoint : ∀ other, state.progress.Remembers other → other ∉ state'.progress.active := by
      intro other remembers isActive
      have known := covers.remembers other remembers
      exact faithful.inactive other remembers (apart other isActive known)
    rcases faithful.repeatable _ _ mem room' trace state' disjoint
      (absorbs.trans covers.absorbs) with limited | ⟨events, again⟩
    · exact .inr (.inl limited)
    · rw [again]
      exact .inr (.inr (close_concludeProduction rfl rfl ⟨faithful, rfl, unrefused, rfl⟩))
  · left; right; right
    rw [state_concludeProduction]
    exact covers

/-- A production with memory has its echo if its expression has. -/
theorem alike_entered (memoizes : grammar.options.memoize = true)
    (echoes : grammar.Echoes text room) (absorbs : base.Absorbs final)
    (apart : ∀ key ∈ base.active, final.Remembers key → key ∈ active)
    (states : (grammar.echo text final active base).state state state')
    (noToken : grammar.token? key.production = none)
    (found : grammar.production? key.production = some expression)
    (forgotten : ¬ state.progress.Remembers key) (inactive : key ∉ state.progress.active)
    (after : grammar.Faithful text (grammar.matchProduction text
      (grammar.resolveWithin text room) expression key trace state).state.progress) :
    (grammar.echo text final active base).Alike
      (grammar.matchProduction text (grammar.resolveWithin text room) expression key trace state)
      (grammar.forgetful.resolveWithin text room' key.production key.offset trace state') := by
  obtain ⟨faithful, rfl, unrefused, rfl⟩ := states
  have grows := grammar.matchProduction_grows trace
    (grammar.walk_grows text room expression.root key.offset {} (state.update (·.enter key)))
  generalize walks : expression.root.walk
    { text, resolve := grammar.resolveWithin text room } key.offset {}
      (state.update (·.enter key)) = walked
  cases concluded : conclusion? key.production walked with
  | none =>
      left
      rw [matchProduction_of_not_concluded walks concluded]
      rcases gone_of_not_concluded concluded with misplaced | ⟨error, raised⟩
      · exact .inl misplaced
      · exact .inr (.inl ⟨error, raised, trivial⟩)
  | some outcome =>
      rw [matchProduction_of_concluded walks concluded] at after grows ⊢
      obtain ⟨stateAfter, leaves, progress⟩ :=
        grammar.leaveProduction_eq key state.progress.refusals outcome trace
          (walked.state.update (·.exit key))
      rw [leaves] at after grows ⊢
      rw [state_concludeProduction] at after grows
      by_cases covers : final.Covers stateAfter.progress
      · have stored : walked.state.progress.refusals = state.progress.refusals := by
          have kept : stateAfter.progress.refusals = walked.state.progress.refusals := by
            rw [progress]
            split <;> rfl
          have most := covers.refusals
          have least := grows.covers.refusals
          omega
        rw [if_pos ⟨memoizes, stored⟩] at progress
        rw [progress] at covers
        -- What has just been stored is remembered in the end, so it can't be active.
        have unentered : key ∉ state'.progress.active := by
          intro mem
          have remembers := covers.remembers key (Progress.remembers_remember.mpr (.inl rfl))
          exact inactive (apart key mem remembers)
        have inside : final.Covers walked.state.progress :=
          covers.trans ((Progress.covers_remember ..).trans (Progress.covers_exit ..))
        rcases resolveWithin_again echoes faithful noToken found forgotten walks concluded inside
          unrefused absorbs apart unentered room' trace with limited | ⟨events, again⟩
        · exact .inr (.inl limited)
        · rw [again]
          refine .inr (.inr (close_concludeProduction rfl rfl ⟨after, grows.active, ?_, rfl⟩))
          rw [progress]
          exact stored.trans unrefused
      · left; right; right
        rw [state_concludeProduction]
        exact covers

end Echo

/-- Resolving a name keeps what is remembered right, if that is so with less room. -/
theorem keeps_faithful (memoizes : grammar.options.memoize = true)
    (below : ∀ less < room, grammar.Echoes text less ∧
      Setting.Keeps { text, resolve := grammar.resolveWithin text less }
        fun state => grammar.Faithful text state.progress) :
    Setting.Keeps { text, resolve := grammar.resolveWithin text room }
      fun state => grammar.Faithful text state.progress := by
  intro name offset trace state faithful
  have resolution := grammar.resolution text room name offset trace state
  simp only
  generalize grammar.resolveWithin text room name offset trace state = walked at resolution ⊢
  cases resolution with
  | @token _ pattern _ =>
      rcases grammar.matchToken_cases text name pattern offset trace with
        ⟨start, fails⟩ | ⟨outcome, after, events, _, passes⟩
      · rw [fails state]
        exact faithful.grow (Progress.covers_expect ..) (Progress.active_expect ..)
          (Progress.memo_expect ..)
      · rw [passes state]
        exact faithful
  | unknown _ _ => exact faithful
  | recalled _ _ _ =>
      rw [state_concludeProduction]
      exact faithful
  | limited _ _ _ => exact faithful
  | refused _ _ _ _ => exact faithful.grow (Progress.covers_refuse _) rfl rfl
  | @entered room expression noToken found forgotten inactive =>
      obtain ⟨echoes, keeps⟩ := below room (Nat.lt_succ_self room)
      rw [remembered?, if_pos memoizes] at forgotten
      exact faithful_matchProduction echoes keeps faithful noToken found
        (Progress.not_remembers_of_remembered?_eq_none forgotten) inactive

/-- Resolving a name has its echo, if that is so with less room. -/
theorem echoes_of_below (memoizes : grammar.options.memoize = true)
    (below : ∀ less < room, grammar.Echoes text less)
    (keeps : Setting.Keeps { text, resolve := grammar.resolveWithin text room }
      fun state => grammar.Faithful text state.progress) : grammar.Echoes text room := by
  intro final active base room' absorbs apart
  refine Likeness.lawful_of_same rfl rfl ?_ ?_ (fun _ _ _ _ off => off)
  · intro name offset trace state state' states
    have after := keeps name offset trace state states.1
    have resolution := grammar.resolution text room name offset trace state
    simp only at after
    generalize grammar.resolveWithin text room name offset trace state = walked
      at after resolution ⊢
    cases resolution with
    | token found =>
        rw [grammar.forgetful.resolveWithin_of_token found]
        exact alike_token absorbs states after
    | unknown _ _ => exact .inl (.inr (.inl ⟨_, rfl, trivial⟩))
    | recalled _ _ recalled =>
        rw [remembered?, if_pos memoizes] at recalled
        exact alike_recalled absorbs apart states (mem_of_lookup_eq_some recalled)
    | limited _ _ _ => exact .inl (.inr (.inl ⟨_, rfl, trivial⟩))
    | refused _ _ _ _ =>
        left; right; right
        intro covers
        have most := covers.refusals
        have unrefused := states.2.2.1
        simp only [ParseState.progress_update, Progress.refusals_refuse,
          ParseState.progress_report] at most
        omega
    | @entered room expression noToken found forgotten inactive =>
        rw [remembered?, if_pos memoizes] at forgotten
        exact alike_entered memoizes (below room (Nat.lt_succ_self room)) absorbs apart states
          noToken found (Progress.not_remembers_of_remembered?_eq_none forgotten) inactive after
  · intro name offset trace state uncovered covers
    exact uncovered (covers.trans (grammar.resolveWithin_grows text room name offset trace
      state).covers)

/-- With memory, every walk of a parse has its echo and keeps what is remembered
right. -/
theorem echoes_and_keeps (memoizes : grammar.options.memoize = true) (text : Text) (room : Nat) :
    grammar.Echoes text room ∧ Setting.Keeps { text, resolve := grammar.resolveWithin text room }
      fun state => grammar.Faithful text state.progress := by
  -- Both at once: what is stored is right because of an echo with less room, and
  -- an echo recalls what is right.
  induction room using Nat.strongRecOn with
  | ind room ih =>
      have keeps := keeps_faithful memoizes ih
      exact ⟨echoes_of_below memoizes (fun less lt => (ih less lt).1) keeps, keeps⟩

end Grammar

end TextGrammar
