import TextGrammar.Proofs.Parse.Contract

/-!
What whole parses come to.

A parse of a closed grammar never leaves the text. If it comes to a tree, the
start production has matched from the start of the text, and if the whole input
had to be matched, only a gap is left after it.
-/

namespace TextGrammar

namespace Grammar

variable {grammar : Grammar} {text : Text}

theorem recalls_of_start (grammar : Grammar) (text : Text) :
    (grammar.contract text []).holds {} :=
  ⟨rfl, grammar.recalls_nil text⟩

/-- The start production is matched with nothing active and all the room there is. -/
theorem walkStart_eq (grammar : Grammar) (text : Text) :
    grammar.walkStart text =
      grammar.resolveWithin text grammar.options.recursionLimit grammar.start 0 {} {} := by
  unfold walkStart resolve room Progress.depth
  rw [List.length_nil, Nat.sub_zero]

/-- The walk from the start keeps the contract with nothing active. -/
theorem walkStart_met (closed : grammar.Closed) (text : Text) :
    (grammar.contract text []).Met text (Kind.reference grammar.start).Generates 0 {}
      (grammar.walkStart text) := by
  have lawful := resolveWithin_lawful closed text grammar.options.recursionLimit []
    (.nil grammar text) (by simp)
  rw [walkStart_eq]
  exact lawful.reference closed.meets_start text.isPlace_zero (grammar.recalls_of_start text)

/-- The only derived trees with the name of the start are nodes of its production. -/
theorem Closed.root_of_derives {tree : ParseTree} (closed : grammar.Closed)
    (derived : grammar.Derives text tree) (label : tree.label = grammar.start) :
    ∃ children, tree = .production grammar.start children := by
  obtain ⟨expression, isProduction⟩ := closed.start
  cases derived with
  | @token name _ _ _ _ found =>
      have same : name = grammar.start := label
      rw [same, closed.apart isProduction] at found
      cases found
  | @production name _ children found =>
      have same : name = grammar.start := label
      rw [same]
      exact ⟨children, rfl⟩

/-- Where the input has to end is found from every place, after a gap. -/
theorem exists_end (grammar : Grammar) {stop : Nat} (place : text.IsPlace stop) :
    ∃ last, (if grammar.options.complete ∧ grammar.options.skipWhitespace then
        text.skipWhitespace? stop else some stop) = some last ∧
      text.Blank grammar.Skips stop last :=
  exists_skip grammar And.right place

section Conclude

variable {stop : Nat} {trace : Trace} {progress : Progress}

theorem conclude_ne_misplaced (place : text.IsPlace stop) :
    grammar.conclude text stop trace progress ≠ .misplaced := by
  obtain ⟨last, ends, _⟩ := exists_end grammar place
  unfold conclude
  simp only [ends]
  split
  · simp
  · split <;> simp

/-- What is wrong with an input whose start matched is that it goes on. -/
theorem conclude_eq_error {error : Error} (place : text.IsPlace stop)
    (concluded : grammar.conclude text stop trace progress = .error error) :
    ∃ expected offset, error = .parseError expected offset := by
  obtain ⟨last, ends, _⟩ := exists_end grammar place
  unfold conclude at concluded
  simp only [ends] at concluded
  split at concluded
  · cases concluded
    exact ⟨_, _, rfl⟩
  · split at concluded
    · cases concluded
    · cases concluded
      exact ⟨_, _, rfl⟩

/-- The start matched with the tree, and if the whole input has to be matched,
only a gap is left over. -/
theorem conclude_eq_tree {tree : ParseTree} (place : text.IsPlace stop)
    (concluded : grammar.conclude text stop trace progress = .tree tree) :
    trace.trees.head? = some tree ∧
      (grammar.options.complete = true → text.Blank grammar.Skips stop text.size) := by
  obtain ⟨last, ends, gap⟩ := exists_end grammar place
  unfold conclude at concluded
  simp only [ends] at concluded
  split at concluded
  · cases concluded
  · rename_i finished
    split at concluded
    · rename_i trees
      cases concluded
      constructor
      · rw [trees, List.head?_cons]
      · intro complete
        have atEnd : last = text.size := by simpa [complete] using finished
        rw [← atEnd]
        exact gap
    · cases concluded

end Conclude

/-- Parsing never looks at the text from an offset that is no place in it. -/
theorem parse_ne_misplaced (closed : grammar.Closed) (text : Text) :
    grammar.parse text ≠ .misplaced := by
  have met := walkStart_met closed text
  unfold parse run
  simp only
  split
  · rename_i stop reached
    exact conclude_ne_misplaced (met.reached stop reached).place
  · simp
  · simp
  · exact absurd ‹_› met.placed

/-- A parse ends with an error that tells what was expected, or because the limit
is not above the number of productions that can be inside one another. -/
theorem parse_eq_error {error : Error} (closed : grammar.Closed)
    (parsed : grammar.parse text = .error error) :
    (∃ expected offset, error = .parseError expected offset) ∨
      (∃ name offset, error = .recursionLimit name offset) ∧
        grammar.options.recursionLimit ≤ grammar.productions.length * (text.size + 1) := by
  have met := walkStart_met closed text
  unfold parse run at parsed
  simp only at parsed
  split at parsed
  · rename_i stop reached
    exact .inl (conclude_eq_error (met.reached stop reached).place parsed)
  · cases parsed
    exact .inl ⟨_, _, rfl⟩
  · rename_i ends
    cases parsed
    exact .inr (met.raised _ ends)
  · cases parsed

/-- A tree that a parse comes to spans the text from its start, up to the end if
the whole input has to be matched. -/
theorem spans_of_parse_eq_tree {tree : ParseTree} (closed : grammar.Closed)
    (parsed : grammar.parse text = .tree tree) :
    tree.label = grammar.start ∧ ∃ stop, grammar.Spans text 0 [tree] stop ∧
      (grammar.options.complete = true → stop = text.size) := by
  have met := walkStart_met closed text
  unfold parse run at parsed
  simp only at parsed
  split at parsed
  · rename_i stop reached
    obtain ⟨place, _, word, trees, ⟨root, rfl, label⟩, spans⟩ := met.reached stop reached
    obtain ⟨latest, gap⟩ := conclude_eq_tree place parsed
    have same : root = tree := by simpa [trees] using latest
    subst same
    refine ⟨label, ?_⟩
    by_cases complete : grammar.options.complete = true
    · have whole := spans.append (spans_nil (gap complete))
      exact ⟨text.size, whole, fun _ => rfl⟩
    · exact ⟨stop, spans, fun yes => absurd yes complete⟩
  · cases parsed
  · cases parsed
  · cases parsed

end Grammar

/-! ### Definitions -/

namespace Definition

/-- Whether the definition compiles to a grammar with which the text is parsed,
and grammar and tree pass a test. -/
def yields (definition : Definition) (text : Text) (test : Grammar → ParseTree → Bool) : Bool :=
  match definition.compile with
  | .ok grammar =>
      match grammar.parse text with
      | .tree tree => test grammar tree
      | _ => false
  | .error _ => false

theorem exists_of_yields (definition : Definition) (text : Text)
    {test : Grammar → ParseTree → Bool} (parses : definition.yields text test = true) :
    ∃ grammar tree, definition.compile = .ok grammar ∧ grammar.parse text = .tree tree ∧
      test grammar tree = true := by
  unfold yields at parses
  split at parses
  · rename_i grammar compiled
    split at parses
    · rename_i tree parsed
      exact ⟨grammar, tree, compiled, parsed, parses⟩
    · cases parses
  · cases parses

/-- Whether the definition compiles to a grammar with which the parse of a text comes
to a certain error. -/
def stopsWith (definition : Definition) (text : Text) (error : Error) : Bool :=
  match definition.compile with
  | .ok grammar =>
      match grammar.parse text with
      | .error found => found = error
      | _ => false
  | .error _ => false

theorem exists_of_stopsWith {definition : Definition} {text : Text} {error : Error}
    (stops : definition.stopsWith text error = true) :
    ∃ grammar, definition.compile = .ok grammar ∧ grammar.parse text = .error error := by
  unfold stopsWith at stops
  split at stops
  · rename_i grammar compiled
    split at stops
    · rename_i found parsed
      obtain rfl := of_decide_eq_true stops
      exact ⟨grammar, compiled, parsed⟩
    · cases stops
  · cases stops

/-- Whether the definition compiles to a grammar that passes a test. -/
def compilesTo (definition : Definition) (test : Grammar → Bool) : Bool :=
  match definition.compile with
  | .ok grammar => test grammar
  | .error _ => false

theorem passes_of_compilesTo {definition : Definition} {grammar : Grammar}
    {test : Grammar → Bool} (compiles : definition.compilesTo test = true)
    (compiled : definition.compile = .ok grammar) : test grammar = true := by
  unfold compilesTo at compiles
  rwa [compiled] at compiles

end Definition

end TextGrammar
