import TextGrammar.Proofs.Parse.Nesting
import TextGrammar.Proofs.Walk.Ends

/-!
Where a parse looks at its text.

A parse looks at its text from places of the text only, be it to skip whitespace,
to match a token or to pass over a character, and so do the records of what it
has done. That a production which has matched can be shown depends on where the
tokens of its tree lie, which the contract of a parse tells: between the offset of
the production and the end of its match (`ParseTree.exists_shown`). So the events
that a parse reports are carried along with the contract
(`Grammar.resolveWithin_reported`).
-/

namespace TextGrammar

/-- A tree that is laid out from a place is shown between two places, neither of them
before it. -/
theorem ParseTree.exists_shown {text : Text} {blank : Char → Prop} {tree : ParseTree}
    {offset stop : Nat} (place : text.IsPlace offset)
    (laid : text.Laid blank offset tree.tokens stop) :
    ∃ first last, tree.range?.getD (offset, offset) = (first, last) ∧ text.IsPlace first ∧
      text.IsPlace last ∧ offset ≤ first ∧ first ≤ last := by
  by_cases none : tree.tokens = []
  · refine ⟨offset, offset, ?_, place, place, Nat.le_refl _, Nat.le_refl _⟩
    simp [range?, none]
  · obtain ⟨first, last, starts, ends, placeFirst, placeLast, after, ordered, _⟩ :=
      laid.exists_ends none
    obtain ⟨leaf, isFirst, starts⟩ := Option.bind_eq_some_iff.mp starts
    obtain ⟨leaf', isLast, ends⟩ := Option.bind_eq_some_iff.mp ends
    refine ⟨first, last, ?_, placeFirst, placeLast, after, ordered⟩
    simp [range?, isFirst, isLast, starts, ends]

/-- Lines can be shown around a stretch between places in their order. -/
theorem Text.exists_highlight? {text : Text} {offset start stop : Nat}
    (place : text.IsPlace offset) (starts : text.IsPlace start) (stops : text.IsPlace stop)
    (after : offset ≤ start) (ordered : start ≤ stop) :
    ∃ lines, text.highlight? offset start stop = some lines := by
  obtain ⟨skipped, before⟩ := Text.exists_slice? place starts after
  obtain ⟨matched, between⟩ := Text.exists_slice? starts stops ordered
  obtain ⟨back, found⟩ := Text.isPlace_iff.mp stops
  obtain ⟨front, rest, whole, sized⟩ := place
  have cut : text.split? offset = some (front, rest) :=
    Text.split?_eq_some_iff.mpr ⟨whole, sized⟩
  unfold Text.highlight?
  rw [cut, before, between, found]
  exact ⟨_, rfl⟩

namespace ParseEvent

/-- What an event tells about the text can be looked up there: the places that it
names are places of the text, in their order. -/
def Placed (text : Text) : ParseEvent → Prop
  | .tokenMatched _ start stop => ∃ value, text.slice? start stop = some value
  | .left _ offset (some tree) =>
      ∃ start stop, tree.range?.getD (offset, offset) = (start, stop) ∧ text.IsPlace offset ∧
        text.IsPlace start ∧ text.IsPlace stop ∧ offset ≤ start ∧ start ≤ stop ∧
        stop ≤ text.size
  | _ => True

variable {text : Text} {event : ParseEvent}

/-- There is a record of an event whose places are places of the text. -/
theorem Placed.exists_record (placed : event.Placed text) :
    ∃ record, event.record? text = some record := by
  cases event with
  | tokenMatched token start stop =>
      obtain ⟨value, between⟩ := placed
      exact ⟨_, by rw [record?, between]; rfl⟩
  | tokenFailed | recalled | limitReached | refused => exact ⟨_, rfl⟩
  | left production offset tree =>
      cases tree with
      | none => exact ⟨_, rfl⟩
      | some tree =>
          obtain ⟨start, stop, shown, place, starts, stops, after, ordered, _⟩ := placed
          obtain ⟨lines, found⟩ := Text.exists_highlight? place starts stops after ordered
          exact ⟨_, by simp only [record?, shown, found]; rfl⟩

/-- There are records of all events if all their places are places of the text. -/
theorem exists_records {events : List ParseEvent} (placed : ∀ event ∈ events, event.Placed text) :
    ∃ records, events.mapM (record? text) = some records := by
  induction events with
  | nil => exact ⟨[], rfl⟩
  | cons event events ih =>
      rw [List.forall_mem_cons] at placed
      obtain ⟨record, found⟩ := placed.1.exists_record
      obtain ⟨records, foundAll⟩ := ih placed.2
      refine ⟨record :: records, ?_⟩
      rw [List.mapM_cons, found, foundAll]
      rfl

end ParseEvent

namespace Grammar

/-- What has been reported can all be looked up in the text. -/
def Reported (text : Text) (state : ParseState) : Prop :=
  ∀ event ∈ state.events, event.Placed text

section

variable {grammar : Grammar} {text : Text} {name : String} {offset : Nat} {trace : Trace}
  {state : ParseState}

theorem Reported.report {event : ParseEvent} (reported : Reported text state)
    (placed : event.Placed text) : Reported text (state.report event) :=
  List.forall_mem_cons.mpr ⟨placed, reported⟩

theorem matchToken_reported {pattern : Pattern} (reported : Reported text state) :
    Reported text (grammar.matchToken text name pattern offset trace state).state := by
  unfold matchToken
  split
  · exact reported
  · split
    · exact reported.report trivial
    · split
      · exact reported
      · rename_i value between
        exact reported.report ⟨value, between⟩

/-- What is reported of a production can be looked up if the walk of its expression
keeps the contract and reports nothing else. -/
theorem matchProduction_reported {expression : Expression} {resolve : Resolver Error ParseState}
    {active : List ProductionAt} (place : text.IsPlace offset)
    (met : ((grammar.contract text active).also (Reported text)).Met text
      expression.root.Generates offset {} (expression.root.walk { text, resolve } offset {}
        (state.update (·.enter ⟨name, offset⟩)))) :
    Reported text
      (grammar.matchProduction text resolve expression ⟨name, offset⟩ trace state).state := by
  generalize walks : expression.root.walk { text, resolve } offset {}
    (state.update (·.enter ⟨name, offset⟩)) = walked at met
  cases concluded : conclusion? name walked with
  | none =>
      rw [matchProduction_of_not_concluded walks concluded]
      exact met.holds.2
  | some outcome =>
      rw [matchProduction_of_concluded walks concluded]
      unfold Reported
      rw [events_leaveProduction, List.forall_mem_cons]
      refine ⟨?_, met.holds.2⟩
      unfold conclusion? at concluded
      split at concluded
      · rename_i stop ends
        cases concluded
        obtain ⟨_, _, word, trees, _, spans⟩ := met.reached stop ends
        have children : walked.trace.trees.reverse = word := by simp [trees]
        have laid : text.Laid grammar.Skips offset
            (ParseTree.production name walked.trace.trees.reverse).tokens stop := by
          rw [children, ParseTree.tokens_production]
          exact spans.laid
        obtain ⟨first, last, shown, starts, stops, after, ordered⟩ :=
          ParseTree.exists_shown place laid
        exact ⟨first, last, shown, place, starts, stops, after, ordered, stops.le_size⟩
      · cases concluded
        trivial
      · cases concluded
      · cases concluded

end

/-- Whatever is active, the walks of a parse report only what can be looked up, as
long as they keep the contract. -/
theorem resolveWithin_reported {grammar : Grammar} (closed : grammar.Closed) (text : Text)
    (room : Nat) : ∀ (active : List ProductionAt), grammar.Stack text active →
      active.length + room = grammar.options.recursionLimit →
      ∀ name offset trace state, (grammar.contract text active).meets (.reference name) →
        text.IsPlace offset → (grammar.contract text active).holds state → Reported text state →
        Reported text (grammar.resolveWithin text room name offset trace state).state := by
  -- As with the contract itself, the induction is on the room for any productions
  -- that are active; inside a production both are kept together.
  induction room using Nat.strongRecOn with
  | ind room ih =>
      intro active stack limit name offset trace state allowed place holds reported
      have resolution := grammar.resolution text room name offset trace state
      generalize grammar.resolveWithin text room name offset trace state = walked
        at resolution ⊢
      cases resolution with
      | token _ => exact matchToken_reported reported
      | unknown _ _ => exact reported
      | recalled _ _ _ =>
          rw [state_concludeProduction]
          exact reported.report trivial
      | limited _ _ _ => exact reported.report trivial
      | refused _ _ _ _ => exact reported.report trivial
      | @entered room expression _ found _ inactive =>
          rw [holds.1] at inactive
          have stack' := stack.cons found inactive place.le_size
          have limit' : (⟨name, offset⟩ :: active : List ProductionAt).length + room =
              grammar.options.recursionLimit := by
            rw [List.length_cons]
            omega
          have lawful : ((grammar.contract text (⟨name, offset⟩ :: active)).also
              (Reported text)).Lawful { text, resolve := grammar.resolveWithin text room } :=
            (resolveWithin_lawful closed text room _ stack' limit').also
              (ih room (Nat.lt_succ_self room) _ stack' limit' _ _ _ _)
          apply matchProduction_reported place
          refine Sequence.walk_met lawful expression.root (closed.meets found) offset {} _ place
            ⟨⟨?_, holds.2⟩, reported⟩
          rw [ParseState.progress_update, Progress.active_enter, holds.1]

/-- All events of a parse can be looked up in its text. -/
theorem placed_of_mem_events {grammar : Grammar} {text : Text} {event : ParseEvent}
    (closed : grammar.Closed) (mem : event ∈ (grammar.run text).events) : event.Placed text := by
  have reported := resolveWithin_reported closed text grammar.options.recursionLimit []
    (.nil grammar text) (Nat.zero_add _) grammar.start 0 {} {} closed.meets_start
    text.isPlace_zero (grammar.recalls_of_start text) nofun
  rw [← walkStart_eq] at reported
  exact reported event (List.mem_reverse.mp mem)

end Grammar

namespace Definition

variable {definition : Definition} {grammar : Grammar}

/-- A parse and its log look at the text from places of it only. Every walk that is
begun stays in the text. Every token has a place to start at, and the walks of its
pattern stay in the text, too. What is shown of a production that has matched lies
between two places in their order, neither of them before the production. So nothing
is misplaced, and there is a record of everything. -/
theorem parse_stays_in_text (compiled : definition.compile = .ok grammar) (text : Text) :
    grammar.parse text ≠ .misplaced ∧
      (∃ records, grammar.log? text = some records) ∧
      (∀ room activation, grammar.Reaches text room activation →
        activation.Inside { text, resolve := grammar.resolveWithin text room }) ∧
      (∀ room name offset trace state pattern,
        grammar.Reaches text room ⟨.kind (.reference name), offset, trace, state⟩ →
        grammar.token? name = some pattern →
        ∃ start, grammar.tokenStart? text offset = some start ∧ text.IsPlace start ∧
          offset ≤ start ∧
          ∀ activation, Activation.Reaches { text, resolve := Pattern.noReferences }
              ⟨.sequence pattern.root, start, {}, ()⟩ activation →
            activation.Inside { text, resolve := Pattern.noReferences }) ∧
      ∀ production offset tree,
        .left production offset (some tree) ∈ (grammar.run text).events →
        ∃ start stop, tree.range?.getD (offset, offset) = (start, stop) ∧
          text.IsPlace offset ∧ text.IsPlace start ∧ text.IsPlace stop ∧
          offset ≤ start ∧ start ≤ stop ∧ stop ≤ text.size := by
  have closed := closed_of_compile_eq_ok compiled
  refine ⟨grammar.parse_ne_misplaced closed text, ?_, ?_, ?_, ?_⟩
  · exact ParseEvent.exists_records fun event mem => Grammar.placed_of_mem_events closed mem
  · intro room activation reaches
    obtain ⟨active, stack, limit, sound⟩ := reaches.sound closed
    exact sound.inside (Grammar.resolveWithin_lawful closed text room active stack limit)
  · intro room name offset trace state pattern reaches _
    obtain ⟨_, _, _, sound⟩ := reaches.sound closed
    obtain ⟨start, starts, gap⟩ := Grammar.exists_skip grammar id sound.place
    obtain ⟨_, between, _⟩ := id gap
    have place : text.IsPlace start := Text.isPlace_stop_of_slice? between
    refine ⟨start, starts, place, gap.le, ?_⟩
    intro activation within
    have lawful := Pattern.contract_lawful text
    have begun : Activation.Sound Pattern.contract { text, resolve := Pattern.noReferences }
        ⟨.sequence pattern.root, start, {}, ()⟩ := ⟨fun _ _ => trivial, place, trivial⟩
    exact (begun.reaches lawful within).inside lawful
  · intro production offset tree mem
    exact Grammar.placed_of_mem_events closed mem

/-- Words between marks that may be missing, with anything else passed over. -/
def exclamations : Definition where
  start := "line"
  tokens := [⟨"word", "[a-zñú]+"⟩, ⟨"mark", "[!¡]"⟩]
  productions := [⟨"line", "marks word [^word mark]* marks"⟩, ⟨"marks", "mark*"⟩]

/-- Where what is shown of the line starts and ends. -/
def lineRange? : ParseEvent → Option (Nat × Nat)
  | .left production _ (some tree) => if production = "line" then tree.range? else none
  | _ => none

/-- The line is shown from its word on, after whitespace that was skipped and marks
that are missing, up to the mark behind what was passed over. -/
theorem exclamations_stay_in_text :
    ∃ grammar, exclamations.compile = .ok grammar ∧
      grammar.parse "  ñandú ‽¡".toList ≠ .misplaced ∧
      (∃ records, grammar.log? "  ñandú ‽¡".toList = some records) ∧
      ∃ offset tree, .left "line" offset (some tree) ∈ (grammar.run "  ñandú ‽¡".toList).events ∧
        tree.range? = some (2, 15) ∧ offset ≤ 2 ∧ Text.IsPlace "  ñandú ‽¡".toList 2 ∧
        Text.IsPlace "  ñandú ‽¡".toList 15 := by
  obtain ⟨grammar, tree, compiled, _, test⟩ := exists_of_yields exclamations "  ñandú ‽¡".toList
    (show exclamations.yields _ (fun grammar _ =>
      (grammar.run "  ñandú ‽¡".toList).events.any fun event =>
        lineRange? event == some (2, 15)) = true by decide +kernel)
  obtain ⟨placed, records, _, _, shown⟩ := parse_stays_in_text compiled "  ñandú ‽¡".toList
  obtain ⟨event, mem, isLine⟩ := List.any_eq_true.mp test
  have range := eq_of_beq isLine
  unfold lineRange? at range
  split at range
  · rename_i production offset tree
    split at range
    · rename_i line
      subst line
      obtain ⟨start, stop, same, _, starts, stops, le, _⟩ := shown "line" offset tree mem
      rw [range, Option.getD_some] at same
      cases same
      exact ⟨grammar, compiled, placed, records, offset, tree, mem, range, le, starts, stops⟩
    · cases range
  · cases range

end Definition

end TextGrammar
