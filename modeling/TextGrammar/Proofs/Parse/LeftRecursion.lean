import Mathlib.Data.List.InsertIdx
import TextGrammar.Proofs.Grammar.Closed
import TextGrammar.Proofs.Parse.Agreement
import TextGrammar.Proofs.Walk.Alternatives

/-!
Alternatives that start with their own production.

An alternative is tried where its production is entered, so a production at its
start is refused there. If it has to match at least once the alternative fails, and
nothing is left of it but the refusal, which is of no account unless productions
are remembered. Without memory, a parse with a grammar that lacks the alternative
comes to the same verdict (`Definition.parse_eq_of_drops`).
-/

namespace TextGrammar

theorem Kind.reference?_eq_some_iff {kind : Kind} {name : String} :
    kind.reference? = some name ↔ kind = .reference name := by
  cases kind <;> simp [Kind.reference?]

theorem Node.isReferential_renumber_iff {number : Nat → Nat} {node : Node} :
    (node.renumber number).kind.IsReferential ↔ node.kind.IsReferential := by
  obtain ⟨kind, quantifier⟩ := node
  cases kind <;> simp [Node.renumber, Kind.renumber, Node.kind, Kind.IsReferential]

namespace Grammar

/-- The alternative of the production starts with the production itself, which has
to match at least once. -/
def LeftRecursiveAt (grammar : Grammar) (name : String) (index : Nat) : Prop :=
  ∃ expression quantifier nodes, grammar.production? name = some expression ∧
    expression.root.alternatives[index]? = some (⟨.reference name, quantifier⟩ :: nodes) ∧
    1 ≤ (quantifier.getD .once).min

instance (grammar : Grammar) (name : String) (index : Nat) :
    Decidable (grammar.LeftRecursiveAt name index) :=
  decidable_of_iff ((grammar.production? name).any (fun expression =>
      (expression.root.alternatives[index]?.bind List.head?).any fun node =>
        node.kind.reference? = some name && 1 ≤ node.bounds.min) = true) <| by
    constructor
    · intro computed
      obtain ⟨expression, found, starts⟩ := (Option.any_eq_true ..).mp computed
      obtain ⟨node, first, needed⟩ := (Option.any_eq_true ..).mp starts
      obtain ⟨nodes, here, head⟩ := Option.bind_eq_some_iff.mp first
      obtain ⟨others, rfl⟩ := List.head?_eq_some_iff.mp head
      obtain ⟨kind, quantifier⟩ := node
      simp only [Bool.and_eq_true, decide_eq_true_eq] at needed
      obtain rfl := Kind.reference?_eq_some_iff.mp needed.1
      exact ⟨expression, quantifier, others, found, here, needed.2⟩
    · rintro ⟨expression, quantifier, nodes, found, here, needed⟩
      rw [found, Option.any_some, here, Option.bind_some, List.head?_cons, Option.any_some,
        Bool.and_eq_true, decide_eq_true_eq, decide_eq_true_eq]
      exact ⟨rfl, needed⟩

/-- The second grammar is the first one without this alternative of the production.
Its groups may have other numbers. -/
structure Drops (grammar : Grammar) (name : String) (index : Nat) (grammar' : Grammar) : Prop where
  start : grammar'.start = grammar.start
  options : grammar'.options = grammar.options
  token : ∀ other, grammar'.token? other = grammar.token? other
  others : ∀ other, other ≠ name → grammar'.production? other = grammar.production? other
  dropped : ∃ expression remaining, grammar.production? name = some expression ∧
    grammar'.production? name = some remaining ∧
    remaining.root.unnumbered.alternatives =
      expression.root.unnumbered.alternatives.eraseIdx index

/-- The grammar without one of the alternatives of a production. -/
def without (grammar : Grammar) (name : String) (index : Nat) : Grammar :=
  { grammar with
    productions := grammar.productions.map fun entry => (entry.1,
      if entry.1 = name then { entry.2 with root := entry.2.root.without index } else entry.2) }

variable {grammar grammar' : Grammar} {name : String} {index : Nat}

theorem production?_without (grammar : Grammar) (name : String) (index : Nat) (other : String) :
    (grammar.without name index).production? other = (grammar.production? other).map
      fun expression =>
        if other = name then { expression with root := expression.root.without index }
        else expression := by
  unfold production? without
  simp only
  induction grammar.productions with
  | nil => rfl
  | cons entry entries ih =>
      rw [List.map_cons, List.lookup_cons, List.lookup_cons, ih]
      cases same : other == entry.1 with
      | true =>
          obtain rfl := eq_of_beq same
          rfl
      | false => rfl

/-- Any one of several alternatives can be dropped. -/
theorem drops_without {expression : Expression}
    (found : grammar.production? name = some expression)
    (inside : index < expression.root.alternatives.length)
    (several : 2 ≤ expression.root.alternatives.length) :
    grammar.Drops name index (grammar.without name index) where
  start := rfl
  options := rfl
  token := fun _ => rfl
  others := by
    intro other different
    rw [production?_without]
    simp [different]
  dropped := by
    have left : (grammar.without name index).production? name =
        some { expression with root := expression.root.without index } := by
      rw [production?_without, found, Option.map_some, if_pos rfl]
    refine ⟨expression, _, found, left, ?_⟩
    rw [Sequence.unnumbered, Sequence.unnumbered, Sequence.alternatives_renumber,
      Sequence.alternatives_renumber, Sequence.alternatives_without _ _ inside several,
      List.eraseIdx_map]

/-! ### Closed grammars without an alternative -/

namespace Drops

theorem declares (drops : grammar.Drops name index grammar') {target : String}
    (declares : grammar.Declares target) : grammar'.Declares target := by
  rcases declares with ⟨pattern, isToken⟩ | ⟨expression, isProduction⟩
  · exact .inl ⟨pattern, (drops.token target).trans isToken⟩
  · by_cases same : target = name
    · subst same
      obtain ⟨_, remaining, _, found, _⟩ := drops.dropped
      exact .inr ⟨remaining, found⟩
    · exact .inr ⟨expression, (drops.others target same).trans isProduction⟩

/-- Every node that is left was there before. -/
theorem exists_mem_visit (drops : grammar.Drops name index grammar') {other : String}
    {remaining : Expression} (found : grammar'.production? other = some remaining) :
    ∃ expression, grammar.production? other = some expression ∧
      ∀ node ∈ remaining.root.visit, ∃ before ∈ expression.root.visit,
        node.renumber (fun _ => 0) = before.renumber (fun _ => 0) := by
  by_cases same : other = name
  · subst same
    obtain ⟨expression, remaining', before, found', erased⟩ := drops.dropped
    cases found.symm.trans found'
    refine ⟨expression, before, fun node inside => ?_⟩
    have renumbered : node.renumber (fun _ => 0) ∈ remaining.root.unnumbered.visit := by
      rw [Sequence.unnumbered, Sequence.visit_renumber]
      exact List.mem_map_of_mem inside
    obtain ⟨nodes, isAlternative, outer, inNodes, mem⟩ := Sequence.mem_visit.mp renumbered
    rw [erased] at isAlternative
    have inBefore : node.renumber (fun _ => 0) ∈ expression.root.unnumbered.visit :=
      Sequence.mem_visit.mpr ⟨nodes, List.mem_of_mem_eraseIdx isAlternative, outer, inNodes, mem⟩
    rw [Sequence.unnumbered, Sequence.visit_renumber] at inBefore
    obtain ⟨node', inside', equal⟩ := List.mem_map.mp inBefore
    exact ⟨node', inside', equal.symm⟩
  · exact ⟨remaining, (drops.others other same).symm.trans found, fun node inside =>
      ⟨node, inside, rfl⟩⟩

theorem closed (drops : grammar.Drops name index grammar') (closed : grammar.Closed) :
    grammar'.Closed where
  start := by
    obtain ⟨expression, found⟩ := closed.start
    rw [drops.start]
    rcases drops.declares (.inr ⟨expression, found⟩) with ⟨pattern, isToken⟩ | isProduction
    · rw [drops.token, closed.apart found] at isToken
      cases isToken
    · exact isProduction
  apart := by
    intro other remaining found
    obtain ⟨expression, before, _⟩ := drops.exists_mem_visit found
    exact (drops.token other).trans (closed.apart before)
  referential := by
    intro other remaining found node inside
    obtain ⟨expression, before, visited⟩ := drops.exists_mem_visit found
    obtain ⟨node', inside', same⟩ := visited node inside
    rw [← Node.isReferential_renumber_iff, same, Node.isReferential_renumber_iff]
    exact closed.referential before node' inside'
  declared := by
    intro other remaining found node inside target refers
    obtain ⟨expression, before, visited⟩ := drops.exists_mem_visit found
    obtain ⟨node', inside', same⟩ := visited node inside
    rw [← Node.kind_renumber_eq_reference_iff, same, Node.kind_renumber_eq_reference_iff] at refers
    exact drops.declares (closed.declared before node' inside' target refers)

end Drops

/-! ### The dead alternative -/

variable {text : Text} {room : Nat} {offset : Nat} {trace : Trace} {state : ParseState}
  {expression : Expression} {quantifier : Option Quantifier}

/-- Without memory, nodes that start with a production that is active and has to
match end in a failure, if not at the limit, and leave nothing but refusals. -/
theorem walkAll_of_leftRecursive (closed : grammar.Closed)
    (forgets : grammar.options.memoize = false)
    (found : grammar.production? name = some expression)
    (needed : 1 ≤ (quantifier.getD .once).min) (nodes : List Node)
    (active : ⟨name, offset⟩ ∈ state.progress.active) :
    (Node.walkAll { text, resolve := grammar.resolveWithin text room }
        (⟨.reference name, quantifier⟩ :: nodes) offset trace state).Gone IsLimit
          (fun _ => False) ∨
      ∃ after refusals, Node.walkAll { text, resolve := grammar.resolveWithin text room }
          (⟨.reference name, quantifier⟩ :: nodes) offset trace state = ⟨.failed, trace, after⟩ ∧
        after.progress = { state.progress with refusals } := by
  have noToken := closed.apart found
  have forgotten : grammar.remembered? ⟨name, offset⟩ state.progress = none := by
    simp [remembered?, forgets]
  rw [Node.walkAll_cons]
  cases more : (quantifier.getD .once).allowsMore 0 with
  | false =>
      rw [Node.walk_of_enough needed more]
      exact .inr ⟨state, state.progress.refusals, rfl, rfl⟩
  | true =>
      cases room with
      | zero =>
          have limited : (Kind.reference name).walk
              { text, resolve := grammar.resolveWithin text 0 } offset trace state =
                ⟨.raised (.recursionLimit name offset), trace,
                  state.report (.limitReached name offset)⟩ := by
            rw [Kind.walk]
            exact resolveWithin_zero noToken found forgotten
          rw [Node.walk_of_raised more (by rw [limited]), limited]
          exact .inl (.inr (.inl ⟨_, rfl, name, offset, rfl⟩))
      | succ room =>
          have refused : (Kind.reference name).walk
              { text, resolve := grammar.resolveWithin text (room + 1) } offset trace state =
                ⟨.failed, trace, (state.report (.refused name offset)).update (·.refuse)⟩ := by
            rw [Kind.walk]
            exact resolveWithin_of_active noToken found forgotten active room
          rw [Node.walk_of_failed needed more (by rw [refused]), refused]
          exact .inr ⟨_, _, rfl, rfl⟩

/-! ### In step without it -/

section Step

variable {names : String → Prop} {grammar' : Grammar} {room' : Nat}
  {alternatives : List (List Node)} {trace' : Trace}
  (lawful : (Lockstep.agreement names false IsLimit).likeness.Lawful
    { text, resolve := grammar.resolveWithin text room }
    { text, resolve := grammar'.resolveWithin text room' })
  (inside : ∀ nodes ∈ alternatives, ∀ inner ∈ Node.visitAll nodes,
    ∀ target, inner.kind = .reference target → names target)
  (trees : trace'.trees = trace.trees.map id)
include lawful inside trees

/-- Alternatives go alike if references are resolved alike. -/
theorem alike_walkFirst {state state' : ParseState}
    (agrees : state.progress.Agrees false state'.progress) :
    (Lockstep.agreement names false IsLimit).likeness.Alike
      (Node.walkFirst { text, resolve := grammar.resolveWithin text room } alternatives offset
        trace state)
      (Node.walkFirst { text, resolve := grammar'.resolveWithin text room' } alternatives offset
        trace' state') := by
  induction alternatives generalizing state state' with
  | nil => exact .inr (.inr ⟨.failed, trees, agrees⟩)
  | cons nodes others ih =>
      have first := Node.walkAll_alike lawful nodes (inside nodes List.mem_cons_self)
        offset offset trace trace' state state' rfl trees agrees
      exact first.orElse (fun _ _ off => off) (fun _ _ off => off) fun _ _ _ _ _ agrees =>
        ih (fun nodes mem => inside nodes (List.mem_cons_of_mem _ mem)) agrees

/-- Alternatives go as they would without one that starts with a production that is
active and has to match. -/
theorem alike_walkFirst_eraseIdx (closed : grammar.Closed)
    (forgets : grammar.options.memoize = false)
    (found : grammar.production? name = some expression)
    (needed : 1 ≤ (quantifier.getD .once).min) {index : Nat} {nodes : List Node}
    (dead : alternatives[index]? = some (⟨.reference name, quantifier⟩ :: nodes))
    {state state' : ParseState} (active : ⟨name, offset⟩ ∈ state.progress.active)
    (agrees : state.progress.Agrees false state'.progress) :
    (Lockstep.agreement names false IsLimit).likeness.Alike
      (Node.walkFirst { text, resolve := grammar.resolveWithin text room } alternatives offset
        trace state)
      (Node.walkFirst { text, resolve := grammar'.resolveWithin text room' }
        (alternatives.eraseIdx index) offset trace' state') := by
  induction alternatives generalizing index state state' with
  | nil => cases dead
  | cons first others ih =>
      have insideOthers : ∀ nodes ∈ others, ∀ inner ∈ Node.visitAll nodes,
          ∀ target, inner.kind = .reference target → names target :=
        fun nodes mem => inside nodes (List.mem_cons_of_mem _ mem)
      rw [Node.walkFirst]
      cases index with
      | zero =>
          obtain rfl : first = ⟨.reference name, quantifier⟩ :: nodes := by simpa using dead
          rw [List.eraseIdx_cons_zero]
          rcases walkAll_of_leftRecursive closed forgets found needed nodes active with
            gone | ⟨after, refusals, fails, progress⟩
          · exact .inl (gone.orElse fun _ _ off => off)
          · obtain ⟨refusals', same, _⟩ := agrees
            rw [fails]
            refine alike_walkFirst lawful insideOthers trees ⟨refusals', ?_, fun on => by cases on⟩
            rw [same, progress]
      | succ index =>
          -- What is tried before the dead alternative leaves the same productions active, so
          -- the production is still active when the dead alternative is tried.
          have alike := Node.walkAll_alike lawful first (inside first List.mem_cons_self)
            offset offset trace trace' state state' rfl trees agrees
          have kept := Node.walkAll_keeps
            (keeps_grows text state.progress (grammar.resolveWithin_grows text room)) first offset
            trace state (.refl _)
          rw [List.eraseIdx_cons_succ, Node.walkFirst]
          generalize Node.walkAll { text, resolve := grammar.resolveWithin text room } first offset
            trace state = walked at alike kept ⊢
          generalize Node.walkAll { text, resolve := grammar'.resolveWithin text room' } first
            offset trace' state' = walked' at alike ⊢
          rcases alike with gone | gone | ⟨ends, traces, states⟩
          · exact .inl (gone.orElse fun _ _ off => off)
          · exact .inr (.inl (gone.orElse fun _ _ off => off))
          · obtain ⟨outcome, after, state⟩ := walked
            obtain ⟨outcome', after', state'⟩ := walked'
            cases ends with
            | reached place => exact .inr (.inr ⟨.reached place, traces, states⟩)
            | failed => exact ih insideOthers dead (kept.active ▸ active) states
            | raised error => exact .inr (.inr ⟨.raised error, traces, states⟩)

end Step

/-- A production is walked as it would be without an alternative that starts with the
production itself. -/
theorem Drops.bodies (drops : grammar.Drops name index grammar') (closed : grammar.Closed)
    (forgets : grammar.options.memoize = false) (recursive : grammar.LeftRecursiveAt name index)
    (found : grammar.production? name = some expression) :
    ∃ remaining, grammar'.production? name = some remaining ∧
      (Lockstep.agreement grammar.Declares false IsLimit).Bodies grammar grammar' text text name
        expression remaining := by
  obtain ⟨expression', quantifier, nodes, found', dead, needed⟩ := recursive
  cases found.symm.trans found'
  obtain ⟨expression', remaining, found', left, erased⟩ := drops.dropped
  cases found.symm.trans found'
  have inside : ∀ inner ∈ expression.root.unnumbered.visit,
      ∀ target, inner.kind = .reference target → grammar.Declares target := by
    rw [Sequence.unnumbered, Sequence.visit_renumber]
    intro inner mem target refers
    obtain ⟨node, visited, rfl⟩ := List.mem_map.mp mem
    exact closed.declared found node visited target (Node.kind_renumber_eq_reference_iff.mp refers)
  have dead' : expression.root.unnumbered.alternatives[index]? =
      some (⟨.reference name, quantifier⟩ :: Node.renumberAll (fun _ => 0) nodes) := by
    rw [Sequence.unnumbered, Sequence.alternatives_renumber, List.getElem?_map, dead,
      Option.map_some, Node.renumberAll, Node.renumber, Kind.renumber]
  refine ⟨remaining, left, ?_⟩
  rintro room room' offset _ state state' lawful rfl agrees active
  have alike : (Lockstep.agreement grammar.Declares false IsLimit).likeness.Alike
      (expression.root.unnumbered.walk { text, resolve := grammar.resolveWithin text room }
        offset {} state)
      (remaining.root.unnumbered.walk { text, resolve := grammar'.resolveWithin text room' }
        offset {} state') := by
    rw [Sequence.walk_eq_walkFirst, Sequence.walk_eq_walkFirst, erased]
    exact alike_walkFirst_eraseIdx lawful
      (fun nodes isAlternative inner mem => inside inner
        (Sequence.mem_visit.mpr ⟨nodes, isAlternative, Node.mem_visitAll.mp mem⟩))
      rfl closed forgets found needed dead' active agrees
  have heedless := grammar.heedless_resolveWithin text room
  have heedless' := grammar'.heedless_resolveWithin text room'
  exact Lockstep.alike_of_resembles alike
    (expression.root.walk_renumber heedless offset {} {} state rfl).symm
    (remaining.root.walk_renumber heedless' offset {} {} state' rfl).symm

/-- Without memory, the grammar without an alternative that starts with its own
production comes to the same verdict, unless the grammar with the alternative runs
into the recursion limit. -/
theorem Drops.parse_eq (drops : grammar.Drops name index grammar') (closed : grammar.Closed)
    (forgets : grammar.options.memoize = false) (recursive : grammar.LeftRecursiveAt name index)
    (unlimited : ∀ name offset, grammar.parse text ≠ .error (.recursionLimit name offset)) :
    grammar'.parse text = grammar.parse text := by
  have akin : grammar.Akin grammar.Declares grammar' := {
    closed := closed
    closed' := drops.closed closed
    options := by rw [drops.options]
    start := drops.start
    named := .inr closed.start
    declares := id
    token := fun _ => drops.token _ }
  have limit : grammar'.options.recursionLimit = grammar.options.recursionLimit := by
    rw [drops.options]
  refine akin.parse_eq_of_lawful IsLimit (akin.lawful ?_) (by omega) (by omega) ?_
  · intro other expression _ found
    rw [forgets]
    by_cases same : other = name
    · subst same
      exact drops.bodies closed forgets recursive found
    · refine ⟨expression, (drops.others other same).trans found, ?_⟩
      rintro room room' offset _ state state' lawful rfl agrees _
      exact expression.root.walk_alike lawful (closed.declared found) offset offset {} {}
        state state' rfl rfl agrees
  · rintro error ⟨name, offset, rfl⟩
    exact unlimited name offset

end Grammar

namespace Definition

/-- Where productions aren't remembered, an alternative that starts with its own
production, which has to match at least once, is dead: whenever a parse doesn't run
into the recursion limit, a grammar without the alternative comes to the same tree
or the same error. -/
theorem parse_eq_of_drops {definition : Definition} {grammar grammar' : Grammar} {name : String}
    {index : Nat} (compiled : definition.compile = .ok grammar)
    (forgets : grammar.options.memoize = false) (recursive : grammar.LeftRecursiveAt name index)
    (drops : grammar.Drops name index grammar') (text : Text)
    (unlimited : ∀ name offset, grammar.parse text ≠ .error (.recursionLimit name offset)) :
    grammar'.parse text = grammar.parse text :=
  drops.parse_eq (closed_of_compile_eq_ok compiled) forgets recursive unlimited

/-- Sums, one of whose alternatives starts with a sum. -/
def leftwardSums : Definition where
  start := "sum"
  tokens := [⟨"number", "[0-9]+"⟩, ⟨"plus", "\\+"⟩]
  productions := [⟨"sum", "(number plus)+ sum|sum{1,2} (plus number)|number"⟩]

theorem leftwardSums_parse_eq :
    ∃ grammar tree, leftwardSums.compile = .ok grammar ∧ grammar.LeftRecursiveAt "sum" 1 ∧
      grammar.Drops "sum" 1 (grammar.without "sum" 1) ∧
      grammar.parse "1 + 2".toList = .tree tree ∧
      (grammar.without "sum" 1).parse "1 + 2".toList = .tree tree := by
  obtain ⟨grammar, tree, compiled, parsed, test⟩ :=
    exists_of_yields leftwardSums "1 + 2".toList
      (show yields _ _ (fun grammar _ => grammar.LeftRecursiveAt "sum" 1 ∧
        (grammar.production? "sum").any (·.root.alternatives.length = 3)) = true by decide +kernel)
  obtain ⟨recursive, several⟩ := of_decide_eq_true test
  obtain ⟨expression, found, three⟩ := (Option.any_eq_true ..).mp several
  have three := of_decide_eq_true three
  have drops : grammar.Drops "sum" 1 (grammar.without "sum" 1) :=
    Grammar.drops_without found (by omega) (by omega)
  obtain ⟨_, _, _, _, _, options⟩ := compile_eq_ok_iff.mp compiled
  have same := parse_eq_of_drops compiled (by rw [options]; rfl) recursive drops "1 + 2".toList
    (fun name offset limited => by cases parsed.symm.trans limited)
  exact ⟨grammar, tree, compiled, recursive, drops, parsed, same.trans parsed⟩

end Definition

end TextGrammar
