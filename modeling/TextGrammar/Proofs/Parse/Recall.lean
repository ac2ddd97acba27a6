import TextGrammar.Proofs.Parse.Limit
import TextGrammar.Proofs.Parse.Memoization

/-!
What recalling spares.

To recall a production takes no room, so a parse with memory may get past a place
where the one without runs into the recursion limit. As long as nothing has been
recalled, the two go along with each other and run into the same limit
(`Grammar.parse_eq_of_unrecalled`). Afterwards the parse with memory may run into the
limit elsewhere, or else it comes to what both come to when there is room enough; it
never comes to anything else (`Definition.parse_memoizing_of_limited`).
-/

namespace TextGrammar

namespace Grammar

variable {grammar : Grammar} {text : Text} {room : Nat} {key : ProductionAt}
  {expression : Expression} {name : String} {offset : Nat} {trace : Trace}
  {state state' : ParseState} {walked : ParseWalk}

/-! ### Up to the first production that is recalled -/

/-- Some production has been recalled. -/
def HasRecalled (state : ParseState) : Prop :=
  ∃ name offset, .recalled name offset ∈ state.events

theorem HasRecalled.mono {before after : ParseState} (recalled : HasRecalled before)
    (kept : before.events <:+ after.events) : HasRecalled after := by
  obtain ⟨name, offset, mem⟩ := recalled
  exact ⟨name, offset, kept.subset mem⟩

/-- A walk with memory beside the same walk without it, as long as the first one
recalls nothing. The errors of both are the same, that of the limit included. -/
def unaided : Likeness Error ParseState Error ParseState where
  meets := fun _ => True
  place := Eq
  trace := Eq
  state := fun state state' => state'.progress = state.progress.forget
  error := Eq
  lost := fun _ => False
  off := HasRecalled
  lost' := fun _ => False
  off' := fun _ => False

theorem unaided_token {pattern : Pattern} (forgets : state'.progress = state.progress.forget) :
    unaided.Alike (grammar.matchToken text name pattern offset trace state)
      (grammar.matchToken text name pattern offset trace state') := by
  rcases grammar.matchToken_cases text name pattern offset trace with
    ⟨start, fails⟩ | ⟨outcome, trace', events, unraised, passes⟩
  · rw [fails state, fails state']
    refine .inr (.inr ⟨.failed, rfl, ?_⟩)
    change (state'.progress.expect name start) = (state.progress.expect name start).forget
    rw [forgets, Progress.forget_expect]
  · rw [passes state, passes state']
    cases outcome with
    | reached stop => exact .inr (.inr ⟨.reached rfl, rfl, forgets⟩)
    | failed => exact .inr (.inr ⟨.failed, rfl, forgets⟩)
    | raised error => exact absurd rfl (unraised error)
    | misplaced => exact .inl (.inl rfl)

/-- Productions go alike if their expressions do. -/
theorem unaided_entered
    (lawful : unaided.Lawful { text, resolve := grammar.resolveWithin text room }
      { text, resolve := grammar.forgetful.resolveWithin text room })
    (forgets : state'.progress = state.progress.forget) :
    unaided.Alike
      (grammar.matchProduction text (grammar.resolveWithin text room) expression key trace state)
      (grammar.forgetful.matchProduction text (grammar.forgetful.resolveWithin text room) expression
        key trace state') := by
  have alike := expression.root.walk_alike lawful (fun _ _ => trivial) key.offset key.offset
    {} {} (state.update (·.enter key)) (state'.update (·.enter key)) rfl rfl
    (show _ = Progress.forget _ from congrArg (·.enter key) forgets)
  generalize walks : expression.root.walk
    { text, resolve := grammar.resolveWithin text room } key.offset {}
      (state.update (·.enter key)) = walked at alike
  generalize walks' : expression.root.walk
    { text, resolve := grammar.forgetful.resolveWithin text room } key.offset {}
      (state'.update (·.enter key)) = walked' at alike
  rcases alike with gone | gone | close
  · left
    rcases gone with misplaced | ⟨_, _, lost⟩ | recalled
    · have aborted : conclusion? key.production walked = none := by rw [conclusion?, misplaced]
      rw [matchProduction_of_not_concluded walks aborted]
      exact .inl misplaced
    · exact lost.elim
    · exact .inr (.inr (HasRecalled.mono recalled (events_matchProduction walks)))
  · exact .inr (.inl (gone_matchProduction walks' gone))
  · exact .inr (.inr (close_matchProduction rfl rfl walks walks' close close.state id))

/-- Until something is recalled, a parse with memory goes along with one without it,
whatever room is left to both. -/
theorem unaided_lawful (grammar : Grammar) (text : Text) (room : Nat) :
    unaided.Lawful { text, resolve := grammar.resolveWithin text room }
      { text, resolve := grammar.forgetful.resolveWithin text room } := by
  induction room using Nat.strongRecOn with
  | ind room ih =>
      refine Likeness.lawful_of_same rfl rfl ?_ ?_ (fun _ _ _ _ off => off)
      · intro name offset trace state state' forgets
        have forgets : state'.progress = state.progress.forget := forgets
        have resolution := grammar.resolution text room name offset trace state
        generalize grammar.resolveWithin text room name offset trace state = walked
          at resolution ⊢
        cases resolution with
        | token found =>
            rw [grammar.forgetful.resolveWithin_of_token found]
            exact unaided_token forgets
        | unknown noToken noProduction =>
            rw [grammar.forgetful.resolveWithin_of_unknown noToken noProduction]
            exact .inr (.inr ⟨.raised rfl, rfl, forgets⟩)
        | recalled _ _ _ =>
            refine .inl (.inr (.inr ⟨name, offset, ?_⟩))
            rw [state_concludeProduction]
            exact List.mem_cons_self
        | limited noToken found _ =>
            rw [grammar.forgetful.resolveWithin_zero noToken found remembered?_forgetful]
            exact .inr (.inr ⟨.raised rfl, rfl, forgets⟩)
        | @refused room _ noToken found _ active =>
            have active' : ⟨name, offset⟩ ∈ state'.progress.active := by
              rw [forgets]
              exact active
            rw [grammar.forgetful.resolveWithin_of_active noToken found remembered?_forgetful
              active']
            exact .inr (.inr ⟨.failed, rfl, congrArg Progress.refuse forgets⟩)
        | @entered room expression noToken found _ inactive =>
            have inactive' : ⟨name, offset⟩ ∉ state'.progress.active := by
              rw [forgets]
              exact inactive
            rw [grammar.forgetful.resolveWithin_of_inactive noToken found remembered?_forgetful
              inactive']
            exact unaided_entered (ih room (Nat.lt_succ_self room)) forgets
      · intro name offset trace state recalled
        exact HasRecalled.mono recalled (grammar.events_resolveWithin text room name offset trace
          state)

/-- A parse that recalls nothing comes to the same as one without memory, be it that
both run into the limit. -/
theorem parse_eq_of_unrecalled (closed : grammar.Closed) (text : Text)
    (unrecalled : ∀ name offset, .recalled name offset ∉ (grammar.run text).events) :
    grammar.parse text = grammar.forgetful.parse text := by
  have alike : unaided.Alike (grammar.walkStart text) (grammar.forgetful.walkStart text) := by
    rw [walkStart_eq, walkStart_eq]
    exact (unaided_lawful grammar text grammar.options.recursionLimit).reference trivial rfl rfl rfl
  have on : ¬ HasRecalled (grammar.walkStart text).state := by
    rintro ⟨name, offset, mem⟩
    exact unrecalled name offset (List.mem_reverse.mpr mem)
  have close := alike.close (walkStart_met closed text).placed nofun on
    (walkStart_met closed.forgetful text).placed nofun id
  exact parse_eq_of_close rfl rfl rfl close close.state

end Grammar

namespace Definition

/-- A definition compiles whether or not productions are to be remembered. Where a
parse without memory runs into the recursion limit, the parse with memory runs into
it at the same production and offset unless it recalls something; if it does, it
runs into the limit elsewhere, or it comes to what a parse without memory comes to
under every limit that is larger than the number of productions that can be inside
one another. -/
theorem parse_memoizing_of_limited {definition : Definition} {plain : Grammar} {text : Text}
    {name : String} {offset : Nat}
    (compiled : (definition.memoizing false).compile = .ok plain)
    (limited : plain.parse text = .error (.recursionLimit name offset)) :
    ∃ grammar, (definition.memoizing true).compile = .ok grammar ∧
      (grammar.parse text = .error (.recursionLimit name offset) ∨
        (∃ name offset, .recalled name offset ∈ (grammar.run text).events) ∧
          ((∃ name offset, grammar.parse text = .error (.recursionLimit name offset)) ∨
            ∀ limit, plain.productions.length * (text.size + 1) < limit →
              ∃ unlimited, ((definition.memoizing false).limited limit).compile = .ok unlimited ∧
                unlimited.parse text = grammar.parse text)) := by
  obtain ⟨grammar, compiles, memoizes, rfl⟩ := exists_memoizing compiled
  have closed := closed_of_compile_eq_ok compiles
  refine ⟨grammar, compiles, ?_⟩
  by_cases recalled : ∃ name offset, .recalled name offset ∈ (grammar.run text).events
  · right
    refine ⟨recalled, ?_⟩
    by_cases limits : ∃ name offset, grammar.parse text = .error (.recursionLimit name offset)
    · exact .inl limits
    · right
      intro limit large
      -- With memory nothing changes under the larger limit, and there the parse without
      -- memory has room enough to come to the same.
      rcases Grammar.parse_eq_error closed.forgetful limited with ⟨_, _, other⟩ | ⟨_, small⟩
      · cases other
      · have raised := closed.parse_withLimit
          (Nat.le_of_lt (Nat.lt_of_le_of_lt small large)) text
          fun name offset same => limits ⟨name, offset, same⟩
        have compilesHigh := compile_limited compiles limit
        have closedHigh := closed_of_compile_eq_ok compilesHigh
        refine ⟨_, compile_limited compiled limit, ?_⟩
        rw [← raised]
        refine (Grammar.parse_forgetful closedHigh memoizes text ?_).symm
        intro name offset same
        rcases Grammar.parse_eq_error closedHigh.forgetful same with ⟨_, _, other⟩ | ⟨_, small⟩
        · cases other
        · exact absurd small (Nat.not_le_of_lt large)
  · left
    rw [← limited]
    exact Grammar.parse_eq_of_unrecalled closed text fun name offset mem =>
      recalled ⟨name, offset, mem⟩

/-- A word that is tried by itself first and then as what a phrase begins with. -/
def phrases : Definition where
  start := "phrase"
  tokens := [⟨"letters", "[a-z]+"⟩, ⟨"mark", "!"⟩]
  productions := [⟨"phrase", "word mark|name"⟩, ⟨"name", "word"⟩, ⟨"word", "letters"⟩]

/-- Behind the word that was tried by itself there is no mark, and inside a name there
is no room for a word; but with memory the word is recalled. What the parse then comes
to is what it comes to without memory under a limit of seven. -/
theorem phrases_memoizing_of_limited :
    ∃ plain grammar unlimited tree,
      ((phrases.limited 2).memoizing false).compile = .ok plain ∧
      ((phrases.limited 2).memoizing true).compile = .ok grammar ∧
      (((phrases.limited 2).memoizing false).limited 7).compile = .ok unlimited ∧
      plain.parse "a".toList = .error (.recursionLimit "word" 0) ∧
      grammar.parse "a".toList = .tree tree ∧ unlimited.parse "a".toList = .tree tree := by
  obtain ⟨plain, compiled, limited⟩ := exists_of_stopsWith
    (show stopsWith ((phrases.limited 2).memoizing false) "a".toList (.recursionLimit "word" 0) =
      true by decide +kernel)
  obtain ⟨grammar, compiles, same⟩ := parse_memoizing_of_limited compiled limited
  obtain ⟨found, tree, compiles', parsed, _⟩ :=
    exists_of_yields ((phrases.limited 2).memoizing true) "a".toList
      (show yields _ _ (fun _ tree => tree.label == "phrase") = true by decide +kernel)
  cases compiles.symm.trans compiles'
  have few : plain.productions.length * (Text.size "a".toList + 1) < 7 := by
    have count : plain.productions.length = 3 := by
      rw [← List.length_map, productions_map_fst compiled]
      rfl
    rw [count]
    decide
  rcases same with again | ⟨_, ⟨name, offset, elsewhere⟩ | enough⟩
  · cases parsed.symm.trans again
  · cases parsed.symm.trans elsewhere
  · obtain ⟨unlimited, compilesHigh, comes⟩ := enough 7 few
    exact ⟨plain, grammar, unlimited, tree, compiled, compiles, compilesHigh, limited, parsed,
      comes.trans parsed⟩

/-- So memory does change which inputs run into the limit: without it there is no room
for the word of a name, and with it the same definition parses the same text. -/
theorem phrases_limit_lifted :
    ∃ plain grammar tree, ((phrases.limited 2).memoizing false).compile = .ok plain ∧
      ((phrases.limited 2).memoizing true).compile = .ok grammar ∧
      plain.parse "a".toList = .error (.recursionLimit "word" 0) ∧
      grammar.parse "a".toList = .tree tree := by
  obtain ⟨plain, compiled, limited⟩ := exists_of_stopsWith
    (show stopsWith ((phrases.limited 2).memoizing false) "a".toList (.recursionLimit "word" 0) =
      true by decide +kernel)
  obtain ⟨grammar, tree, compiles, parsed, _⟩ :=
    exists_of_yields ((phrases.limited 2).memoizing true) "a".toList
      (show yields _ _ (fun _ tree => tree.label == "phrase") = true by decide +kernel)
  exact ⟨plain, grammar, tree, compiled, compiles, limited, parsed⟩

end Definition

end TextGrammar
