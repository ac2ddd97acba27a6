import TextGrammar.Proofs.Grammar.Derivation
import TextGrammar.Proofs.Parse.Resolution
import TextGrammar.Proofs.Parse.Stack
import TextGrammar.Proofs.Pattern.Extent

/-!
What a parse keeps.

While the same productions are active, every walk of a parse spans what it
matches with trees that the grammar derives, and remembers no other trees. It
never leaves the text, and the only error that it may end with is that the
recursion limit is reached (`Grammar.resolveWithin_lawful`).
-/

namespace TextGrammar

namespace Grammar

/-- What matching a production up to an offset has to come to. -/
structure Matched (grammar : Grammar) (text : Text) (key : ProductionAt) (stop : Nat)
    (tree : ParseTree) : Prop where
  place : text.IsPlace stop
  le : key.offset ≤ stop
  root : ∃ children, tree = .production key.production children
  spans : grammar.Spans text key.offset [tree] stop

/-- The matches that are remembered are matches. -/
def Recalls (grammar : Grammar) (text : Text) (memo : List (ProductionAt × Remembered)) : Prop :=
  ∀ key stop tree, (key, some (stop, tree)) ∈ memo → grammar.Matched text key stop tree

/-- The kinds of nodes that the expressions of a grammar are made of. -/
def Meets (grammar : Grammar) (kind : Kind) : Prop :=
  kind.IsReferential ∧ (∀ target, kind = .reference target → grammar.Declares target) ∧
    (kind.isNegated = true → ¬ grammar.NegationFree)

/-- What a parse keeps while these productions are active. -/
def contract (grammar : Grammar) (text : Text) (active : List ProductionAt) :
    Contract Error ParseState where
  meets := grammar.Meets
  holds := fun state => state.progress.active = active ∧ grammar.Recalls text state.progress.memo
  span := grammar.Spans text
  raises := fun error => (∃ name offset, error = .recursionLimit name offset) ∧
    grammar.options.recursionLimit ≤ grammar.productions.length * (text.size + 1)

section

variable {grammar : Grammar} {text : Text} {active : List ProductionAt} {key : ProductionAt}
  {name : String} {offset : Nat} {trace : Trace} {state : ParseState}

/-- The nodes of every expression of a closed grammar are of these kinds. -/
theorem Closed.meets {expression : Expression} (closed : grammar.Closed)
    (found : grammar.production? name = some expression) :
    ∀ node ∈ expression.root.visit, grammar.Meets node.kind := by
  intro node mem
  refine ⟨closed.referential found node mem, closed.declared found node mem, ?_⟩
  intro negated free
  rw [free _ (mem_of_lookup_eq_some found) node mem] at negated
  cases negated

/-- A reference to a production is of these kinds, too. -/
theorem meets_reference {expression : Expression}
    (found : grammar.production? name = some expression) : grammar.Meets (.reference name) := by
  refine ⟨trivial, ?_, nofun⟩
  rintro _ ⟨⟩
  exact .inr ⟨expression, found⟩

theorem Closed.meets_start (closed : grammar.Closed) :
    grammar.Meets (.reference grammar.start) := by
  obtain ⟨_, found⟩ := closed.start
  exact meets_reference found

theorem recalls_nil (grammar : Grammar) (text : Text) : grammar.Recalls text [] := by
  intro key stop tree mem
  cases mem

/-- To remember a match, or that there is none, keeps what is remembered right. -/
theorem Recalls.remember {progress : Progress} {outcome : Remembered}
    (recalls : grammar.Recalls text progress.memo)
    (matched : ∀ stop tree, outcome = some (stop, tree) → grammar.Matched text key stop tree) :
    grammar.Recalls text (progress.remember key outcome).memo := by
  intro other stop tree mem
  rcases Progress.mem_memo_remember.mp mem with new | ⟨old, _⟩
  · cases new
    exact matched stop tree rfl
  · exact recalls other stop tree old

theorem mem_memo_of_remembered? {progress : Progress} {outcome : Remembered}
    (remembered : grammar.remembered? key progress = some outcome) :
    (key, outcome) ∈ progress.memo := by
  unfold remembered? at remembered
  split at remembered
  · exact mem_of_lookup_eq_some remembered
  · cases remembered

/-- What is remembered of a production is what its matching came to. -/
theorem Recalls.matched {stop : Nat} {tree : ParseTree} {progress : Progress}
    (recalls : grammar.Recalls text progress.memo)
    (remembered : grammar.remembered? key progress = some (some (stop, tree))) :
    grammar.Matched text key stop tree :=
  recalls key stop tree (mem_memo_of_remembered? remembered)

/-! ### Tokens -/

/-- Matching a token keeps the contract. -/
theorem matchToken_met {pattern : Pattern} (found : grammar.token? name = some pattern)
    (place : text.IsPlace offset) (holds : (grammar.contract text active).holds state) :
    (grammar.contract text active).Met text (Kind.reference name).Generates offset trace
      (grammar.matchToken text name pattern offset trace state) := by
  obtain ⟨start, starts, gap⟩ := exists_skip grammar id place
  unfold matchToken tokenStart?
  simp only [starts]
  split
  · apply Contract.met_of_failed ?_ rfl
    constructor
    · simpa using holds.1
    · simpa using holds.2
  · rename_i m matched
    obtain ⟨matched, nonempty⟩ := Option.filter_eq_some_iff.mp matched
    obtain ⟨_, _, stops, le⟩ := Pattern.extent_of_matchAt? matched
    obtain ⟨value, between, some⟩ :=
      Pattern.exists_slice?_of_matchAt? matched (by simpa using nonempty)
    simp only [between]
    refine Contract.met_of_reached holds rfl
      ⟨stops, Nat.le_trans gap.le le, [.leaf name (String.ofList value) start], rfl, ?_, ?_⟩
    · exact ⟨_, rfl, rfl⟩
    · exact spans_leaf found matched between some stops gap

/-! ### Productions -/

/-- The outcome of a production is passed on as it is. -/
theorem concludeProduction_met {outcome : Remembered}
    (holds : (grammar.contract text active).holds state)
    (matched : ∀ stop tree, outcome = some (stop, tree) →
      grammar.Matched text ⟨name, offset⟩ stop tree) :
    (grammar.contract text active).Met text (Kind.reference name).Generates offset trace
      (concludeProduction outcome trace state) := by
  cases outcome with
  | none => exact Contract.met_of_failed holds rfl
  | some result =>
      obtain ⟨stop, tree⟩ := result
      obtain ⟨place, le, ⟨children, root⟩, spans⟩ := matched stop tree rfl
      refine Contract.met_of_reached holds rfl ⟨place, le, [tree], rfl, ⟨tree, rfl, ?_⟩, spans⟩
      rw [root]
      rfl

theorem leaveProduction_met {outcome : Remembered} {refusalsBefore : Nat}
    (holds : (grammar.contract text active).holds state)
    (matched : ∀ stop tree, outcome = some (stop, tree) →
      grammar.Matched text ⟨name, offset⟩ stop tree) :
    (grammar.contract text active).Met text (Kind.reference name).Generates offset trace
      (grammar.leaveProduction ⟨name, offset⟩ refusalsBefore outcome trace state) := by
  unfold leaveProduction
  refine concludeProduction_met ?_ matched
  split
  · exact ⟨holds.1, holds.2.remember matched⟩
  · exact holds

/-- Matching a production keeps the contract if the walk of its expression does,
with the production active. -/
theorem matchProduction_met {expression : Expression} {resolve : Resolver Error ParseState}
    (found : grammar.production? name = some expression)
    (met : (grammar.contract text (⟨name, offset⟩ :: active)).Met text expression.root.Generates
      offset {} (expression.root.walk { text, resolve } offset {}
        (state.update (·.enter ⟨name, offset⟩)))) :
    (grammar.contract text active).Met text (Kind.reference name).Generates offset trace
      (grammar.matchProduction text resolve expression ⟨name, offset⟩ trace state) := by
  obtain ⟨⟨entered, recalls⟩, reached, raised, placed⟩ := met
  unfold matchProduction
  simp only
  generalize expression.root.walk { text, resolve } offset {}
    (state.update (·.enter ⟨name, offset⟩)) = walked at entered recalls reached raised placed
  have holds : (grammar.contract text active).holds
      (walked.state.update (·.exit ⟨name, offset⟩)) := by
    constructor
    · rw [ParseState.progress_update, Progress.active_exit, entered, List.erase_cons_head]
    · exact recalls
  split
  · rename_i stop ends
    apply leaveProduction_met holds
    rintro _ _ ⟨⟩
    obtain ⟨place, le, word, trees, generated, spans⟩ := reached stop ends
    have children : walked.trace.trees.reverse = word := by simp [trees]
    rw [children]
    exact ⟨place, le, ⟨word, rfl⟩, spans.production found generated⟩
  · exact leaveProduction_met holds (by simp)
  · rename_i error ends
    refine ⟨holds, by simp, ?_, by simp⟩
    rintro _ ⟨⟩
    exact raised error ends
  · exact absurd ‹_› placed

/-! ### Names -/

theorem concludeProduction_tidy (outcome : Remembered) :
    (concludeProduction outcome trace state).Tidy trace := by
  cases outcome with
  | none =>
      intro _
      rfl
  | some result =>
      intro failed
      cases failed

/-- A name that fails leaves the trace as it was. -/
theorem resolveWithin_tidy (grammar : Grammar) (text : Text) (room : Nat) :
    Setting.Tidy { text, resolve := grammar.resolveWithin text room } := by
  intro name offset trace state
  have resolution := grammar.resolution text room name offset trace state
  simp only
  generalize grammar.resolveWithin text room name offset trace state = walked at resolution ⊢
  cases resolution with
  | token _ =>
      unfold matchToken
      split
      · exact fun _ => rfl
      · split
        · exact fun _ => rfl
        · split
          · exact fun _ => rfl
          · exact fun failed => nomatch failed
  | unknown _ _ => exact fun _ => rfl
  | recalled _ _ _ => exact concludeProduction_tidy _
  | limited _ _ _ => exact fun _ => rfl
  | refused _ _ _ _ => exact fun _ => rfl
  | entered _ _ _ _ =>
      unfold matchProduction
      simp only
      split
      · exact concludeProduction_tidy _
      · exact concludeProduction_tidy _
      · exact fun _ => rfl
      · exact fun _ => rfl

/-- Whatever is active, the walks of a parse keep the contract, as long as the
room that is left and the active productions make up the recursion limit. -/
theorem resolveWithin_lawful (closed : grammar.Closed) (text : Text) (room : Nat) :
    ∀ (active : List ProductionAt), grammar.Stack text active →
      active.length + room = grammar.options.recursionLimit →
      (grammar.contract text active).Lawful
        { text, resolve := grammar.resolveWithin text room } := by
  -- To enter a production takes room and changes the contract, as one more is
  -- active then; so the contract varies in the induction on the room.
  induction room using Nat.strongRecOn with
  | ind room ih =>
      intro active stack limit
      refine ⟨fun place => spans_nil (.refl place), Spans.append, fun spans => spans.laid.eq_nil,
        ?_, ?_, grammar.resolveWithin_tidy text room, fun _ => Nat.le_refl _⟩
      · rintro kind start stop char ⟨referential, _, negating⟩ takes between
        rcases takes with ⟨chars, rfl⟩ | ⟨items, rfl⟩
        · exact absurd referential id
        · exact spans_nil ⟨_, between, fun _ _ => .inr (negating rfl)⟩
      · intro name offset trace state allowed place holds
        have declared : grammar.Declares name := allowed.2.1 name rfl
        have resolution := grammar.resolution text room name offset trace state
        simp only at place ⊢
        generalize grammar.resolveWithin text room name offset trace state = walked
          at resolution ⊢
        cases resolution with
        | token found => exact matchToken_met found place holds
        | unknown noToken noProduction =>
            rcases declared with ⟨pattern, found⟩ | ⟨expression, found⟩
            · cases noToken.symm.trans found
            · cases noProduction.symm.trans found
        | recalled _ _ remembered =>
            refine concludeProduction_met holds ?_
            intro stop tree same
            rw [same] at remembered
            exact holds.2.matched remembered
        | limited _ _ _ =>
            refine ⟨holds, by simp, ?_, by simp⟩
            rintro _ ⟨⟩
            have := stack.length_le
            exact ⟨⟨name, offset, rfl⟩, by omega⟩
        | refused _ _ _ _ => exact Contract.met_of_failed holds rfl
        | @entered room expression _ found _ inactive =>
            rw [holds.1] at inactive
            have lawful := ih room (Nat.lt_succ_self room) (⟨name, offset⟩ :: active)
              (stack.cons found inactive place.le_size) (by rw [List.length_cons]; omega)
            apply matchProduction_met found
            apply Sequence.walk_met lawful expression.root (closed.meets found) offset {} _ place
            constructor
            · rw [ParseState.progress_update, Progress.active_enter, holds.1]
            · exact holds.2

end

end Grammar

end TextGrammar
