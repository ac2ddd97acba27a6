import TextGrammar.Proofs.Parse.Agreement

/-!
What a production depends on.

Without memory a production can only come to something else if it is refused
somewhere, and no walk goes back behind the offset where it began. So what a
production comes to at an offset depends on the productions that are active there,
and not on those that were entered before, nor on anything else that has happened
(`Definition.resolve_of_same_active`).

Nothing is asked of the two states that are compared but that no production is
active further on: they need not be states of a parse.
-/

namespace TextGrammar

/-- From an offset on the same productions are active. -/
def Progress.SameFrom (start : Nat) (progress progress' : Progress) : Prop :=
  ∀ key : ProductionAt, start ≤ key.offset → (key ∈ progress.active ↔ key ∈ progress'.active)

namespace Grammar

variable {grammar : Grammar} {text : Text} {name : String} {offset start room : Nat}
  {trace trace' : Trace} {state state' : ParseState}

/-! ### In whatever state -/

/-- What a parse without memory keeps in whatever state it is. -/
def anyhow (grammar : Grammar) (text : Text) : Contract Error ParseState where
  meets := grammar.Meets
  holds := fun _ => True
  span := grammar.Spans text
  raises := IsLimit

/-- A walk that keeps the contract of a parse keeps this one, and so does one that ends
alike from another state. -/
theorem anyhow_of_met {language : List ParseTree → Prop} {active : List ProductionAt}
    {walked walked' : ParseWalk}
    (met : (grammar.contract text active).Met text language offset trace walked)
    (ends : walked'.outcome = walked.outcome) (same : walked'.trace = walked.trace) :
    (grammar.anyhow text).Met text language offset trace walked' where
  holds := trivial
  reached := by
    rw [ends, same]
    intro stop reached
    obtain ⟨place, le, word⟩ := met.reached stop reached
    exact ⟨place, le, word⟩
  raised := by
    rw [ends]
    intro error raised
    exact (met.raised error raised).1
  placed := by
    rw [ends]
    exact met.placed

theorem anyhow_matchToken {pattern : Pattern} (found : grammar.token? name = some pattern)
    (place : text.IsPlace offset) :
    (grammar.anyhow text).Met text (Kind.reference name).Generates offset trace
      (grammar.matchToken text name pattern offset trace state) := by
  have met : (grammar.contract text []).Met text (Kind.reference name).Generates offset trace
      (grammar.matchToken text name pattern offset trace {}) :=
    matchToken_met found place (grammar.recalls_of_start text)
  rcases grammar.matchToken_cases text name pattern offset trace with
    ⟨_, fails⟩ | ⟨_, _, _, _, passes⟩
  · exact anyhow_of_met met (by rw [fails, fails]) (by rw [fails, fails])
  · exact anyhow_of_met met (by rw [passes, passes]) (by rw [passes, passes])

/-- A production keeps the contract if the walk of its expression does. -/
theorem anyhow_matchProduction {expression : Expression} {resolve : Resolver Error ParseState}
    (found : grammar.production? name = some expression)
    (met : (grammar.anyhow text).Met text expression.root.Generates offset {}
      (expression.root.walk { text, resolve } offset {} (state.update (·.enter ⟨name, offset⟩)))) :
    (grammar.anyhow text).Met text (Kind.reference name).Generates offset trace
      (grammar.matchProduction text resolve expression ⟨name, offset⟩ trace state) := by
  generalize walks : expression.root.walk { text, resolve } offset {}
    (state.update (·.enter ⟨name, offset⟩)) = walked at met
  cases concluded : conclusion? name walked with
  | none =>
      rw [matchProduction_of_not_concluded walks concluded]
      refine ⟨trivial, ?_, met.raised, met.placed⟩
      intro stop reached
      have reached : walked.outcome = .reached stop := reached
      rw [conclusion?, reached] at concluded
      cases concluded
  | some outcome =>
      rw [matchProduction_of_concluded walks concluded]
      obtain ⟨after, leaves, _⟩ := grammar.leaveProduction_eq ⟨name, offset⟩
        state.progress.refusals outcome trace (walked.state.update (·.exit ⟨name, offset⟩))
      have matched : ∀ stop tree, outcome = some (stop, tree) →
          grammar.Matched text ⟨name, offset⟩ stop tree := by
        rintro stop tree rfl
        unfold conclusion? at concluded
        split at concluded
        · rename_i reached
          cases concluded
          obtain ⟨place, le, word, trees, generated, spans⟩ := met.reached _ reached
          have children : walked.trace.trees.reverse = word := by simp [trees]
          rw [children]
          exact ⟨place, le, ⟨word, rfl⟩, spans.production found generated⟩
        · cases concluded
        · cases concluded
        · cases concluded
      have met : (grammar.contract text []).Met text (Kind.reference name).Generates offset
          trace (concludeProduction outcome trace {}) :=
        concludeProduction_met (grammar.recalls_of_start text) matched
      rw [leaves]
      refine anyhow_of_met met ?_ ?_
      · cases outcome <;> rfl
      · cases outcome <;> rfl

/-- Without memory, whatever the state, a name of the grammar is resolved inside the
text, and by nothing but trees that the grammar derives. -/
theorem anyhow_lawful (closed : grammar.Closed) (forgets : grammar.options.memoize = false)
    (text : Text) (room : Nat) :
    (grammar.anyhow text).Lawful { text, resolve := grammar.resolveWithin text room } := by
  induction room using Nat.strongRecOn with
  | ind room ih =>
      refine ⟨fun place => spans_nil (.refl place), Spans.append, fun spans => spans.laid.eq_nil,
        ?_, ?_, grammar.resolveWithin_tidy text room, fun _ => Nat.le_refl _⟩
      · rintro kind start stop char ⟨referential, _, negating⟩ takes between
        rcases takes with ⟨chars, rfl⟩ | ⟨items, rfl⟩
        · exact absurd referential id
        · exact spans_nil ⟨_, between, fun _ _ => .inr (negating rfl)⟩
      · intro name offset trace state allowed place _
        have resolution := grammar.resolution text room name offset trace state
        simp only at place ⊢
        generalize grammar.resolveWithin text room name offset trace state = walked
          at resolution ⊢
        cases resolution with
        | token found => exact anyhow_matchToken found place
        | unknown noToken noProduction =>
            rcases allowed.2.1 name rfl with ⟨pattern, found⟩ | ⟨expression, found⟩
            · cases noToken.symm.trans found
            · cases noProduction.symm.trans found
        | recalled _ _ remembered => simp [remembered?, forgets] at remembered
        | limited _ _ _ =>
            refine ⟨trivial, by simp, ?_, by simp⟩
            rintro _ ⟨⟩
            exact ⟨name, offset, rfl⟩
        | refused _ _ _ _ => exact Contract.met_of_failed trivial rfl
        | @entered room expression _ found _ _ =>
            apply anyhow_matchProduction found
            exact Sequence.walk_met (ih room (Nat.lt_succ_self room)) expression.root
              (closed.meets found) offset {} _ place trivial

/-! ### In step from an offset on -/

/-- Two parses without memory from an offset on, in which the same productions are
active from there on. Either may run into the limit before the other one does. -/
def onward (grammar : Grammar) (start : Nat) : Lockstep where
  meets := grammar.Meets
  place := fun offset offset' => offset = offset' ∧ start ≤ offset
  tree := id
  progress := Progress.SameFrom start
  error := fun _ _ => True
  lost := IsLimit
  lost' := IsLimit

theorem steady_onward (grammar : Grammar) (start : Nat) : (grammar.onward start).Steady false where
  active_iff := by
    rintro progress progress' name offset _ same ⟨rfl, le⟩
    exact same ⟨name, offset⟩ le
  refuse := id
  enter := by
    rintro progress progress' name offset _ same ⟨rfl, le⟩ key from_start
    rw [Progress.active_enter, Progress.active_enter, List.mem_cons, List.mem_cons,
      same key from_start]
  exit := by
    rintro before before' after after' name offset _ same _ ⟨rfl, le⟩ active active' key from_start
    rw [Progress.active_exit, Progress.active_exit, active, active', List.erase_cons_head,
      List.erase_cons_head]
    exact same key from_start
  refusals_iff := nofun
  recalls := nofun
  remember := nofun

/-- A token is matched alike, and not behind the offset. -/
theorem alike_matchToken_onward (pattern : Pattern) (le : start ≤ offset)
    (trees : trace'.trees = trace.trees.map id)
    (same : state.progress.SameFrom start state'.progress) :
    (grammar.onward start).likeness.Alike
      (grammar.matchToken text name pattern offset trace state)
      (grammar.matchToken text name pattern offset trace' state') := by
  unfold matchToken
  split
  · exact .inl (.inl rfl)
  · rename_i first starts
    have skipped : offset ≤ first := by
      unfold tokenStart? at starts
      split at starts
      · obtain ⟨⟨_, gap, _⟩, _⟩ := Text.skipWhitespace?_eq_some_iff.mp starts
        exact Text.le_of_slice? gap
      · cases starts
        exact Nat.le_refl _
    split
    · refine .inr (.inr ⟨.failed, trees, ?_⟩)
      intro key from_start
      simp only [ParseState.progress_update, ParseState.progress_report, Progress.active_expect]
      exact same key from_start
    · rename_i m _
      split
      · exact .inl (.inl rfl)
      · rename_i value between
        have := Text.le_of_slice? between
        refine .inr (.inr ⟨.reached ⟨rfl, by omega⟩, ?_, same⟩)
        have trees : trace'.trees = trace.trees.map id := trees
        simp [Lockstep.likeness, onward, Trace.addTree, trees]

/-- Parses without memory stay in step from an offset on. -/
theorem lawful_onward (closed : grammar.Closed) (forgets : grammar.options.memoize = false)
    (text : Text) (start : Nat) :
    (grammar.onward start).Lawful grammar grammar text text where
  memoize := rfl
  steady := forgets ▸ grammar.steady_onward start
  place_iff := by
    rintro one _ two _ ⟨rfl, _⟩ ⟨rfl, _⟩
    exact Iff.rfl
  tree_production := by
    intro name children
    rw [onward, List.map_id]
    rfl
  limit := fun _ => trivial
  character := by
    rintro kind offset _ _ _ ⟨rfl, le⟩ test
    unfold Text.matchChar
    split
    · exact .inl rfl
    · exact .inr (.inr .failed)
    · split
      · exact .inr (.inr (.reached ⟨rfl, by omega⟩))
      · exact .inr (.inr .failed)
  boundary := fun meets => meets.1.elim
  declares := fun meets => meets.2.1 _ rfl
  token := by
    intro name pattern _ found
    refine ⟨pattern, found, ?_⟩
    rintro offset _ trace trace' state state' ⟨rfl, le⟩ trees same
    exact alike_matchToken_onward pattern le trees same
  production := by
    intro name expression _ noToken found
    refine ⟨noToken, expression, found, ?_⟩
    rintro room room' offset offset' state state' lawful place same _
    exact expression.root.walk_alike lawful (closed.meets found) offset offset' {} {}
      state state' place rfl same

/-- The productions that are active at an offset are those that are active from there
on, if none is active further on. -/
theorem sameFrom_of_upTo {offset : Nat} {progress progress' : Progress}
    (same : ∀ other, ⟨other, offset⟩ ∈ progress.active ↔ ⟨other, offset⟩ ∈ progress'.active)
    (upTo : ∀ key ∈ progress.active, key.offset ≤ offset)
    (upTo' : ∀ key ∈ progress'.active, key.offset ≤ offset) :
    progress.SameFrom offset progress' := by
  rintro ⟨other, further⟩ le
  have le : offset ≤ further := le
  by_cases here : further = offset
  · rw [here]
    exact same other
  · constructor
    · intro mem
      have : further ≤ offset := upTo _ mem
      omega
    · intro mem
      have : further ≤ offset := upTo' _ mem
      omega

/-! ### What a production comes to -/

/-- A production comes to an outcome or is given up, and in neither case it matters what
has been recorded. -/
theorem resolveWithin_cases {expression : Expression} (noToken : grammar.token? name = none)
    (found : grammar.production? name = some expression) (text : Text) (room offset : Nat)
    (state : ParseState) :
    (∃ outcome after, ∀ trace,
      grammar.resolveWithin text room name offset trace state =
        concludeProduction outcome trace after) ∨
    ∃ ends after, (ends = .misplaced ∨ ∃ error, ends = .raised error) ∧ ∀ trace,
      grammar.resolveWithin text room name offset trace state = ⟨ends, trace, after⟩ := by
  cases remembered : grammar.remembered? ⟨name, offset⟩ state.progress with
  | some outcome => exact .inl ⟨outcome, _, fun trace =>
      resolveWithin_of_remembered noToken found remembered room⟩
  | none =>
      cases room with
      | zero => exact .inr ⟨_, _, .inr ⟨_, rfl⟩, fun trace =>
          resolveWithin_zero noToken found remembered⟩
      | succ room =>
          by_cases active : ⟨name, offset⟩ ∈ state.progress.active
          · exact .inl ⟨none, _, fun trace =>
              resolveWithin_of_active noToken found remembered active room⟩
          · have enters : ∀ trace,
                grammar.resolveWithin text (room + 1) name offset trace state =
                  grammar.matchProduction text (grammar.resolveWithin text room) expression
                    ⟨name, offset⟩ trace state := fun trace =>
              resolveWithin_of_inactive noToken found remembered active room
            generalize walks : expression.root.walk
              { text, resolve := grammar.resolveWithin text room } offset {}
                (state.update (·.enter ⟨name, offset⟩)) = walked
            cases concluded : conclusion? name walked with
            | some outcome =>
                refine .inl ⟨outcome, (grammar.leaveProduction ⟨name, offset⟩
                  state.progress.refusals outcome {}
                  (walked.state.update (·.exit ⟨name, offset⟩))).state, fun trace => ?_⟩
                rw [enters trace, matchProduction_of_concluded walks concluded]
                unfold leaveProduction
                rw [state_concludeProduction]
            | none =>
                refine .inr ⟨walked.outcome, walked.state.update (·.exit ⟨name, offset⟩),
                  gone_of_not_concluded concluded, fun trace => ?_⟩
                rw [enters trace, matchProduction_of_not_concluded walks concluded]

/-- A production for which there is room comes to an outcome. -/
theorem exists_outcome {expression : Expression} (closed : grammar.Closed)
    (forgets : grammar.options.memoize = false)
    (found : grammar.production? name = some expression) (place : text.IsPlace offset)
    (unlimited : ∀ production further,
      (grammar.resolveWithin text room name offset trace state).outcome ≠
        .raised (.recursionLimit production further)) :
    ∃ outcome after, ∀ trace, grammar.resolveWithin text room name offset trace state =
      concludeProduction outcome trace after := by
  rcases resolveWithin_cases (closed.apart found) found text room offset state with
    concluded | ⟨ends, after, aborted, resolves⟩
  · exact concluded
  · have met : (grammar.anyhow text).Met text (Kind.reference name).Generates offset trace
        (grammar.resolveWithin text room name offset trace state) :=
      (anyhow_lawful closed forgets text room).reference (meets_reference found) place trivial
    rw [resolves] at met unlimited
    rcases aborted with rfl | ⟨error, rfl⟩
    · exact absurd rfl met.placed
    · obtain ⟨production, further, rfl⟩ := met.raised error rfl
      exact absurd rfl (unlimited production further)

theorem not_gone_concludeProduction (outcome : Remembered) (lost : Error → Prop) :
    ¬ (concludeProduction outcome trace state).Gone lost fun _ => False := by
  rintro (misplaced | ⟨_, raised, _⟩ | off)
  · cases outcome <;> cases misplaced
  · cases outcome <;> cases raised
  · exact off

/-- Outcomes that are concluded in step are the same. -/
theorem outcome_eq_of_close {outcome outcome' : Remembered}
    (close : (grammar.onward start).likeness.Close (concludeProduction outcome {} state)
      (concludeProduction outcome' {} state')) : outcome = outcome' := by
  obtain ⟨ends, trees, _⟩ := close
  cases outcome with
  | none =>
      cases outcome' with
      | none => rfl
      | some result' => cases ends
  | some result =>
      cases outcome' with
      | none => cases ends
      | some result' =>
          cases ends with
          | reached place =>
              have tree : [result'.2] = [result.2] := trees
              exact congrArg some (Prod.ext place.1 (List.singleton_inj.mp tree).symm)

end Grammar

namespace Definition

/-- Without memory, what a production comes to at an offset depends on the productions
that are active there and on nothing else that has happened: from two states in which
the same ones are, and none further on, it comes to the same end with the same tree or
fails both times, unless it runs into the recursion limit. -/
theorem resolve_of_same_active {definition : Definition} {grammar : Grammar} {text : Text}
    {name : String} {expression : Expression} {offset : Nat} {state state' : ParseState}
    {trace trace' : Trace} (compiled : definition.compile = .ok grammar)
    (forgets : grammar.options.memoize = false)
    (found : grammar.production? name = some expression) (place : text.IsPlace offset)
    (same : ∀ other,
      ⟨other, offset⟩ ∈ state.progress.active ↔ ⟨other, offset⟩ ∈ state'.progress.active)
    (upTo : ∀ key ∈ state.progress.active, key.offset ≤ offset)
    (upTo' : ∀ key ∈ state'.progress.active, key.offset ≤ offset)
    (unlimited : ∀ production further, (grammar.resolve text name offset trace state).outcome ≠
      .raised (.recursionLimit production further))
    (unlimited' : ∀ production further, (grammar.resolve text name offset trace' state').outcome ≠
      .raised (.recursionLimit production further)) :
    ∃ outcome after after',
      grammar.resolve text name offset trace state =
        Grammar.concludeProduction outcome trace after ∧
      grammar.resolve text name offset trace' state' =
        Grammar.concludeProduction outcome trace' after' := by
  have closed := closed_of_compile_eq_ok compiled
  obtain ⟨outcome, after, resolves⟩ :=
    Grammar.exists_outcome closed forgets found place unlimited
  obtain ⟨outcome', after', resolves'⟩ :=
    Grammar.exists_outcome closed forgets found place unlimited'
  have lawful := (Grammar.lawful_onward closed forgets text offset).resolveWithin
    (grammar.room state.progress) (grammar.room state'.progress)
    (fun _ name further => ⟨name, further, rfl⟩) (fun _ name further => ⟨name, further, rfl⟩)
  have alike := lawful.reference (Grammar.meets_reference found) ⟨rfl, Nat.le_refl offset⟩
    (show (grammar.onward offset).likeness.trace {} {} from rfl)
    (Grammar.sameFrom_of_upTo same upTo upTo')
  simp only [resolves, resolves'] at alike
  rcases alike with gone | gone | close
  · exact absurd gone (Grammar.not_gone_concludeProduction outcome _)
  · exact absurd gone (Grammar.not_gone_concludeProduction outcome' _)
  · rw [← Grammar.outcome_eq_of_close close] at resolves'
    exact ⟨outcome, after, after', resolves trace, resolves' trace'⟩

/-- Sums whose terms may be sums again. -/
def entangled : Definition where
  start := "sum"
  tokens := [⟨"number", "[0-9]+"⟩, ⟨"plus", "\\+"⟩]
  productions := [⟨"sum", "term plus sum|term"⟩, ⟨"term", "sum plus number|number"⟩]

/-- A term that is looked for while a sum is active at the same offset, on two ways to
get there: the sum that the term could begin with is refused on both. -/
theorem entangled_resolve :
    let sooner : ParseState := { progress := { active := [⟨"sum", 4⟩, ⟨"sum", 0⟩] } }
    let later : ParseState := { progress := {
      active := [⟨"sum", 4⟩, ⟨"term", 0⟩, ⟨"sum", 0⟩]
      refusals := 3, furthest := 5, expected := ["plus"] } }
    ∃ grammar tree after after', entangled.compile = .ok grammar ∧
      grammar.resolve "1 + 2".toList "term" 4 {} sooner =
        Grammar.concludeProduction (some (5, tree)) {} after ∧
      grammar.resolve "1 + 2".toList "term" 4 {} later =
        Grammar.concludeProduction (some (5, tree)) {} after' := by
  intro sooner later
  obtain ⟨grammar, _, compiled, _, test⟩ := exists_of_yields entangled "1 + 2".toList
    (show entangled.yields _ (fun grammar _ => decide (grammar.options.memoize = false ∧
      (grammar.production? "term").isSome = true ∧
      (grammar.resolve "1 + 2".toList "term" 4 {} sooner).outcome = .reached 5 ∧
      (grammar.resolve "1 + 2".toList "term" 4 {} later).outcome = .reached 5)) = true by
        decide +kernel)
  obtain ⟨forgets, isProduction, reached, reached'⟩ := of_decide_eq_true test
  obtain ⟨expression, found⟩ := Option.isSome_iff_exists.mp isProduction
  have place : Text.IsPlace "1 + 2".toList 4 := ⟨"1 + ".toList, "2".toList, by decide, by decide⟩
  obtain ⟨outcome, after, after', resolves, resolves'⟩ :=
    resolve_of_same_active compiled forgets found place
      (show ∀ other, ⟨other, 4⟩ ∈ sooner.progress.active ↔ ⟨other, 4⟩ ∈ later.progress.active by
        simp [sooner, later])
      (by simp [sooner]) (by simp [later])
      (fun _ _ limited => nomatch reached.symm.trans limited)
      (fun _ _ limited => nomatch reached'.symm.trans limited)
  rw [resolves] at reached
  cases outcome with
  | none => cases reached
  | some result =>
      obtain ⟨stop, tree⟩ := result
      cases reached
      exact ⟨grammar, tree, after, after', compiled, resolves, resolves'⟩

end Definition

end TextGrammar
