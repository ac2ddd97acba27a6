import TextGrammar.Proofs.Parse.Memory
import TextGrammar.Proofs.Parse.Verdict

/-!
Memory changes nothing.

A parse with memory goes along with one without. Both have the same productions
active and expect the same, and where the first one recalls something, the second
one comes to it by itself (`Grammar.shadow_lawful`). So both end with the same
verdict, unless the parse without memory runs into the recursion limit.
-/

namespace TextGrammar

namespace Progress

def forget (progress : Progress) : Progress :=
  { progress with memo := [] }

theorem forget_expect (progress : Progress) (name : String) (offset : Nat) :
    (progress.expect name offset).forget = progress.forget.expect name offset := by
  unfold expect forget
  simp only
  split
  · rfl
  · split <;> rfl

end Progress

namespace Grammar

/-- A walk with memory beside the same walk without it. -/
def shadow (grammar : Grammar) (text : Text) : Likeness Error ParseState Error ParseState where
  meets := fun _ => True
  place := Eq
  trace := Eq
  state := fun state state' => grammar.Faithful text state.progress ∧
    state'.progress = state.progress.forget
  error := Eq
  lost := fun _ => False
  off := fun _ => False
  lost' := IsLimit
  off' := fun _ => False

variable {grammar : Grammar} {text : Text} {room : Nat} {key : ProductionAt}
  {expression : Expression} {name : String} {offset : Nat} {trace : Trace}
  {state state' : ParseState} {outcome : Remembered}

theorem shadow_token {pattern : Pattern} (states : (grammar.shadow text).state state state')
    (after : grammar.Faithful text
      (grammar.matchToken text name pattern offset trace state).state.progress) :
    (grammar.shadow text).Alike (grammar.matchToken text name pattern offset trace state)
      (grammar.matchToken text name pattern offset trace state') := by
  obtain ⟨_, forgets⟩ := states
  rcases grammar.matchToken_cases text name pattern offset trace with
    ⟨start, fails⟩ | ⟨outcome, trace', events, unraised, passes⟩
  · rw [fails state] at after ⊢
    rw [fails state']
    refine .inr (.inr ⟨.failed, rfl, after, ?_⟩)
    simp only [ParseState.progress_update, ParseState.progress_report, forgets,
      Progress.forget_expect]
  · rw [passes state] at after ⊢
    rw [passes state']
    cases outcome with
    | reached stop => exact .inr (.inr ⟨.reached rfl, rfl, after, forgets⟩)
    | failed => exact .inr (.inr ⟨.failed, rfl, after, forgets⟩)
    | raised error => exact absurd rfl (unraised error)
    | misplaced => exact .inl (.inl rfl)

/-- What is recalled is what the parse without memory comes to. -/
theorem shadow_recalled (states : (grammar.shadow text).state state state')
    (mem : (⟨name, offset⟩, outcome) ∈ state.progress.memo) (room : Nat) :
    (grammar.shadow text).Alike
      (concludeProduction outcome trace (state.report (.recalled name offset)))
      (grammar.forgetful.resolveWithin text room name offset trace state') := by
  obtain ⟨faithful, forgets⟩ := states
  have disjoint : ∀ other, state.progress.Remembers other → other ∉ state'.progress.active := by
    intro other remembers
    rw [forgets]
    exact faithful.inactive other remembers
  have absorbs : state'.progress.Absorbs state.progress := by
    rw [forgets]
    exact .refl state.progress
  rcases faithful.repeatable _ _ mem room trace state' disjoint absorbs with
    limited | ⟨events, again⟩
  · exact .inr (.inl limited)
  · rw [again]
    exact .inr (.inr (close_concludeProduction rfl rfl ⟨faithful, forgets⟩))

/-- Productions whose expressions have been walked alike with and without memory are
concluded alike. -/
theorem close_matchProduction {l : Likeness Error ParseState Error ParseState}
    {resolve resolve' : Resolver Error ParseState} {walked walked' : ParseWalk}
    (place : l.place = Eq) (traces : l.trace = Eq)
    (walks : expression.root.walk { text, resolve } key.offset {} (state.update (·.enter key)) =
      walked)
    (walks' : expression.root.walk { text, resolve := resolve' } key.offset {}
      (state'.update (·.enter key)) =
      walked')
    (close : l.Close walked walked')
    (forgets : walked'.state.progress = walked.state.progress.forget)
    (states :
      (grammar.forgetful.matchProduction text resolve' expression key trace state').state.progress =
        (grammar.matchProduction text resolve expression key trace state).state.progress.forget →
      l.state (grammar.matchProduction text resolve expression key trace state).state
        (grammar.forgetful.matchProduction text resolve' expression key trace state').state) :
    l.Close (grammar.matchProduction text resolve expression key trace state)
      (grammar.forgetful.matchProduction text resolve' expression key trace state') := by
  have same := conclusion?_of_close place traces close key.production
  have forgetsAfter : walked'.state.progress.exit key = (walked.state.progress.exit key).forget :=
    congrArg (·.exit key) forgets
  cases concluded : conclusion? key.production walked with
  | none =>
      rw [concluded] at same
      rw [matchProduction_of_not_concluded walks concluded,
        matchProduction_of_not_concluded walks' same] at states ⊢
      exact ⟨close.outcome, by rw [traces], states forgetsAfter⟩
  | some outcome =>
      rw [concluded] at same
      rw [matchProduction_of_concluded walks concluded,
        matchProduction_of_concluded walks' same] at states ⊢
      obtain ⟨after, leaves, progress⟩ := grammar.leaveProduction_eq key state.progress.refusals
        outcome trace (walked.state.update (·.exit key))
      obtain ⟨events, leaves'⟩ := grammar.leaveProduction_forgetful key state'.progress.refusals
        outcome trace (walked'.state.update (·.exit key))
      rw [leaves, leaves', state_concludeProduction, state_concludeProduction] at states
      rw [leaves, leaves']
      refine close_concludeProduction place traces (states (forgetsAfter.trans ?_))
      rw [progress]
      split <;> rfl

/-- Productions go alike if their expressions do. -/
theorem shadow_entered
    (lawful : (grammar.shadow text).Lawful { text, resolve := grammar.resolveWithin text room }
      { text, resolve := grammar.forgetful.resolveWithin text room })
    (states : (grammar.shadow text).state state state') (forgotten : ¬ state.progress.Remembers key)
    (after : grammar.Faithful text (grammar.matchProduction text
      (grammar.resolveWithin text room) expression key trace state).state.progress) :
    (grammar.shadow text).Alike
      (grammar.matchProduction text (grammar.resolveWithin text room) expression key trace state)
      (grammar.forgetful.matchProduction text (grammar.forgetful.resolveWithin text room) expression
        key trace state') := by
  obtain ⟨faithful, forgets⟩ := states
  have alike := expression.root.walk_alike lawful (fun _ _ => trivial) key.offset key.offset
    {} {} (state.update (·.enter key)) (state'.update (·.enter key)) rfl rfl
    ⟨faithful.enter forgotten, congrArg (·.enter key) forgets⟩
  rcases alike with gone | gone | close
  · exact .inl (gone_matchProduction rfl gone)
  · exact .inr (.inl (gone_matchProduction rfl gone))
  · exact .inr (.inr (close_matchProduction rfl rfl rfl rfl close close.state.2
      fun forgets => ⟨after, forgets⟩))

/-- A parse with memory goes along with one without it, whatever room is left. -/
theorem shadow_lawful (memoizes : grammar.options.memoize = true) (text : Text) (room : Nat) :
    (grammar.shadow text).Lawful { text, resolve := grammar.resolveWithin text room }
      { text, resolve := grammar.forgetful.resolveWithin text room } := by
  induction room using Nat.strongRecOn with
  | ind room ih =>
      refine Likeness.lawful_of_same rfl rfl ?_ (fun _ _ _ _ off => off) (fun _ _ _ _ off => off)
      intro name offset trace state state' states
      have after := (echoes_and_keeps memoizes text room).2 name offset trace state states.1
      have resolution := grammar.resolution text room name offset trace state
      simp only at after
      generalize grammar.resolveWithin text room name offset trace state = walked
        at after resolution ⊢
      cases resolution with
      | token found =>
          rw [grammar.forgetful.resolveWithin_of_token found]
          exact shadow_token states after
      | unknown noToken noProduction =>
          rw [grammar.forgetful.resolveWithin_of_unknown noToken noProduction]
          exact .inr (.inr ⟨.raised rfl, rfl, states⟩)
      | recalled _ _ recalled =>
          rw [remembered?, if_pos memoizes] at recalled
          exact shadow_recalled states (mem_of_lookup_eq_some recalled) room
      | limited noToken found _ =>
          rw [grammar.forgetful.resolveWithin_zero noToken found remembered?_forgetful]
          exact .inr (.inl (.inr (.inl ⟨_, rfl, _, _, rfl⟩)))
      | @refused room _ noToken found _ active =>
          have active' : ⟨name, offset⟩ ∈ state'.progress.active := by
            rw [states.2]
            exact active
          rw [grammar.forgetful.resolveWithin_of_active noToken found remembered?_forgetful active']
          exact .inr (.inr ⟨.failed, rfl, after, congrArg Progress.refuse states.2⟩)
      | @entered room expression noToken found forgotten inactive =>
          have inactive' : ⟨name, offset⟩ ∉ state'.progress.active := by
            rw [states.2]
            exact inactive
          rw [grammar.forgetful.resolveWithin_of_inactive noToken found remembered?_forgetful
            inactive']
          rw [remembered?, if_pos memoizes] at forgotten
          exact shadow_entered (ih room (Nat.lt_succ_self room)) states
            (Progress.not_remembers_of_remembered?_eq_none forgotten) after

theorem Closed.forgetful (closed : grammar.Closed) : grammar.forgetful.Closed where
  start := closed.start
  apart := closed.apart
  referential := closed.referential
  declared := closed.declared

theorem faithful_start (grammar : Grammar) (text : Text) : grammar.Faithful text {} where
  inactive := by
    rintro key ⟨outcome, mem⟩
    cases mem
  repeatable := by
    intro key outcome mem
    cases mem

/-- What is said at the end depends on what is expected, not on what is remembered. -/
theorem conclude_forgetful (stop : Nat) (trace : Trace) (progress : Progress) :
    grammar.forgetful.conclude text stop trace progress.forget =
      grammar.conclude text stop trace progress := by
  have same : ∀ last, (progress.forget.expect "end of input" last).error =
      (progress.expect "end of input" last).error := by
    intro last
    rw [← Progress.forget_expect]
    rfl
  unfold conclude
  simp only [same]
  rfl

/-- Walks that are the same but for what is remembered come to the same verdict. -/
theorem parse_eq_of_close {l : Likeness Error ParseState Error ParseState} (place : l.place = Eq)
    (traces : l.trace = Eq) (errors : l.error = Eq)
    (close : l.Close (grammar.walkStart text) (grammar.forgetful.walkStart text))
    (forgets : (grammar.forgetful.walkStart text).state.progress =
      (grammar.walkStart text).state.progress.forget) :
    grammar.parse text = grammar.forgetful.parse text := by
  unfold parse run
  simp only
  generalize grammar.walkStart text = walked at close forgets ⊢
  generalize grammar.forgetful.walkStart text = walked' at close forgets ⊢
  obtain ⟨outcome, trace, state⟩ := walked
  obtain ⟨outcome', trace', state'⟩ := walked'
  obtain ⟨ends, same, _⟩ := close
  rw [traces] at same
  simp only at same forgets ⊢
  cases same
  rw [forgets]
  cases ends with
  | reached next =>
      rw [place] at next
      cases next
      exact (conclude_forgetful ..).symm
  | failed => rfl
  | raised error =>
      rw [errors] at error
      rw [error]

/-- With memory or without it, a parse comes to the same verdict, unless the one
without memory runs into the recursion limit. -/
theorem parse_forgetful (closed : grammar.Closed) (memoizes : grammar.options.memoize = true)
    (text : Text)
    (unlimited : ∀ name offset,
      grammar.forgetful.parse text ≠ .error (.recursionLimit name offset)) :
    grammar.parse text = grammar.forgetful.parse text := by
  have alike : (grammar.shadow text).Alike (grammar.walkStart text)
      (grammar.forgetful.walkStart text) := by
    rw [walkStart_eq, walkStart_eq]
    have lawful := shadow_lawful memoizes text grammar.options.recursionLimit
    exact lawful.reference trivial rfl rfl ⟨grammar.faithful_start text, rfl⟩
  have kept : ∀ error, IsLimit error →
      (grammar.forgetful.walkStart text).outcome ≠ .raised error := by
    rintro _ ⟨name, offset, rfl⟩ raised
    apply unlimited name offset
    unfold parse run
    simp only [raised]
  have close := alike.close (walkStart_met closed text).placed nofun id
    (walkStart_met closed.forgetful text).placed kept id
  exact parse_eq_of_close rfl rfl rfl close close.state.2

end Grammar

namespace Definition

/-- The definition with productions remembered or not. -/
def memoizing (definition : Definition) (memoize : Bool) : Definition :=
  definition.withOptions { definition.options with memoize }

/-- A definition that compiles without memory compiles with it, to the same grammar
but for its memory. -/
theorem exists_memoizing {definition : Definition} {plain : Grammar}
    (compiled : (definition.memoizing false).compile = .ok plain) :
    ∃ grammar, (definition.memoizing true).compile = .ok grammar ∧
      grammar.options.memoize = true ∧ grammar.forgetful = plain := by
  obtain ⟨ofTokens, distinct, ofProductions, start, isStart, options⟩ :=
    compile_eq_ok_iff.mp compiled
  let grammar : Grammar := { plain with options := { plain.options with memoize := true } }
  have compiles : (definition.memoizing true).compile = .ok grammar := by
    refine compile_eq_ok_iff.mpr ⟨ofTokens, distinct, ofProductions, start, isStart, ?_⟩
    simp only [grammar, options]
    rfl
  have off : plain.options.memoize = false := by rw [options]; rfl
  refine ⟨grammar, compiles, rfl, ?_⟩
  unfold Grammar.forgetful
  simp only [grammar, ← off]

/-- A definition compiles whether or not productions are to be remembered, and
whenever a parse without memory doesn't run into the recursion limit, the parse
with memory comes to the same tree or the same error. -/
theorem parse_memoizing {definition : Definition} {plain : Grammar}
    (compiled : (definition.memoizing false).compile = .ok plain) (text : Text)
    (unlimited : ∀ name offset, plain.parse text ≠ .error (.recursionLimit name offset)) :
    ∃ grammar, (definition.memoizing true).compile = .ok grammar ∧
      grammar.parse text = plain.parse text := by
  obtain ⟨grammar, compiles, memoizes, rfl⟩ := exists_memoizing compiled
  exact ⟨grammar, compiles,
    Grammar.parse_forgetful (closed_of_compile_eq_ok compiles) memoizes text unlimited⟩

/-- Lists of lists, in which a list may start with a list at the same place. -/
def lists : Definition where
  start := "list"
  tokens := [⟨"word", "[a-z]+"⟩, ⟨"comma", ","⟩]
  productions := [⟨"list", "pair comma list|pair|word"⟩, ⟨"pair", "list? word word|word comma"⟩]

theorem lists_memoizing :
    ∃ plain grammar tree, (lists.memoizing false).compile = .ok plain ∧
      (lists.memoizing true).compile = .ok grammar ∧
      plain.parse "a b, c d".toList = .tree tree ∧
      grammar.parse "a b, c d".toList = .tree tree := by
  obtain ⟨plain, tree, compiled, parsed, _⟩ :=
    exists_of_yields (lists.memoizing false) "a b, c d".toList
      (show yields _ _ (fun _ tree => tree.label == "list") = true by decide +kernel)
  obtain ⟨grammar, compiles, same⟩ := parse_memoizing compiled "a b, c d".toList
    (fun name offset limited => by cases parsed.symm.trans limited)
  exact ⟨plain, grammar, tree, compiled, compiles, parsed, same.trans parsed⟩

end Definition

end TextGrammar
