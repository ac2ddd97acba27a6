import TextGrammar.Grammar.Compile
import TextGrammar.Proofs.Expression.Kinds

/-!
What compiling a definition makes sure of.

A compiled grammar is closed: no name stands for two things, every name that an
expression refers to stands for a token or a production, and the start is a
production (`Definition.closed_of_compile_eq_ok`). What a name stands for was
compiled from the rule that declares it.
-/

namespace TextGrammar

namespace Grammar

/-- The name stands for a token or a production. -/
def Declares (grammar : Grammar) (name : String) : Prop :=
  (∃ pattern, grammar.token? name = some pattern) ∨
    ∃ expression, grammar.production? name = some expression

/-- Every name that a parse may come across has one meaning. -/
structure Closed (grammar : Grammar) : Prop where
  start : ∃ expression, grammar.production? grammar.start = some expression
  apart : ∀ {name expression}, grammar.production? name = some expression →
    grammar.token? name = none
  referential : ∀ {name expression}, grammar.production? name = some expression →
    ∀ node ∈ expression.root.visit, node.kind.IsReferential
  declared : ∀ {name expression}, grammar.production? name = some expression →
    ∀ node ∈ expression.root.visit, ∀ target, node.kind = .reference target →
      grammar.Declares target

end Grammar

/-! ### Names -/

/-- A list in which no element repeats an earlier one has no duplicates. -/
theorem nodup_of_firstRepeated?_eq_none {α : Type} [DecidableEq α] {seen values : List α}
    (none : firstRepeated? seen values = none) :
    values.Nodup ∧ ∀ value ∈ values, value ∉ seen := by
  induction values generalizing seen with
  | nil => simp
  | cons value values ih =>
      rw [firstRepeated?] at none
      split at none
      · cases none
      · rename_i new
        obtain ⟨nodup, unseen⟩ := ih none
        have other : value ∉ values := by
          intro mem
          exact unseen value mem List.mem_cons_self
        constructor
        · exact List.nodup_cons.mpr ⟨other, nodup⟩
        · intro found mem
          rcases List.mem_cons.mp mem with rfl | later
          · exact new
          · intro inSeen
            exact unseen found later (List.mem_cons_of_mem _ inSeen)

theorem mem_of_lookup_eq_some {α β : Type} [BEq α] [LawfulBEq α] {entries : List (α × β)}
    {key : α} {value : β} (found : entries.lookup key = some value) : (key, value) ∈ entries := by
  obtain ⟨_, _, rfl, _⟩ := List.lookup_eq_some_iff.mp found
  simp

/-- A key in a list of entries has a value there. -/
theorem exists_lookup_of_mem {α β : Type} [BEq α] [LawfulBEq α] {entries : List (α × β)}
    {key : α} (mem : key ∈ entries.map Prod.fst) : ∃ value, entries.lookup key = some value := by
  cases found : entries.lookup key with
  | some value => exact ⟨value, rfl⟩
  | none =>
      obtain ⟨entry, inEntries, rfl⟩ := List.mem_map.mp mem
      have := List.lookup_eq_none_iff.mp found entry inEntries
      simp at this

namespace Definition

variable {definition : Definition} {grammar : Grammar}

/-- A definition compiles to a grammar when each of its checks succeeds. -/
theorem compile_eq_ok_iff :
    definition.compile = .ok grammar ↔
      definition.tokens.mapM Rule.compileToken = .ok grammar.tokens ∧
      definition.checkNames = .ok () ∧
      definition.productions.mapM (Rule.compileProduction definition.names) =
        .ok grammar.productions ∧
      (∃ expression, grammar.production? definition.start = some expression) ∧
      grammar.start = definition.start ∧ grammar.options = definition.options := by
  unfold compile
  constructor
  · intro compiled
    obtain ⟨tokens, ofTokens, named⟩ := bind_eq_ok_iff.mp compiled
    obtain ⟨_, distinct, produced⟩ := bind_eq_ok_iff.mp named
    obtain ⟨productions, ofProductions, started⟩ := bind_eq_ok_iff.mp produced
    split at started
    · cases started
    · rename_i expression found
      cases started
      exact ⟨ofTokens, distinct, ofProductions, ⟨expression, found⟩, rfl, rfl⟩
  · rintro ⟨ofTokens, distinct, ofProductions, ⟨expression, found⟩, start, options⟩
    refine bind_eq_ok_iff.mpr ⟨_, ofTokens, bind_eq_ok_iff.mpr ⟨_, distinct,
      bind_eq_ok_iff.mpr ⟨_, ofProductions, ?_⟩⟩⟩
    rw [Grammar.production?] at found
    rw [found, ← start, ← options]
    rfl

theorem names_nodup (compiled : definition.compile = .ok grammar) : definition.names.Nodup := by
  obtain ⟨_, distinct, _⟩ := compile_eq_ok_iff.mp compiled
  unfold checkNames at distinct
  split at distinct
  · cases distinct
  · exact (nodup_of_firstRepeated?_eq_none ‹_›).1

/-- The tokens of the grammar have the names of the token rules. -/
theorem tokens_map_fst (compiled : definition.compile = .ok grammar) :
    grammar.tokens.map Prod.fst = definition.tokens.map Rule.name := by
  obtain ⟨ofTokens, _⟩ := compile_eq_ok_iff.mp compiled
  apply map_eq_of_mapM ofTokens
  intro rule token checked
  obtain ⟨pattern, _, same⟩ := bind_eq_ok_iff.mp checked
  cases same
  rfl

/-- A production rule is compiled from its expression, which refers to names of
the definition only. -/
theorem compileProduction_eq_ok {names : List String} {rule : Rule} {name : String}
    {expression : Expression} (compiled : rule.compileProduction names = .ok (name, expression)) :
    rule.name = name ∧ Expression.compile rule.expression = .ok expression ∧
      ∀ target ∈ expression.references, target ∈ names := by
  obtain ⟨found, ofSource, checked⟩ := bind_eq_ok_iff.mp compiled
  split at checked
  · cases checked
  · rename_i known
    cases checked
    exact ⟨rfl, ofSource, by simpa using known⟩

/-- The productions of the grammar have the names of the production rules. -/
theorem productions_map_fst (compiled : definition.compile = .ok grammar) :
    grammar.productions.map Prod.fst = definition.productions.map Rule.name := by
  obtain ⟨_, _, ofProductions, _⟩ := compile_eq_ok_iff.mp compiled
  apply map_eq_of_mapM ofProductions
  intro rule production checked
  exact (compileProduction_eq_ok checked).1.symm

/-- What a token matches was compiled from the rule that declares it. -/
theorem exists_rule_of_token? (compiled : definition.compile = .ok grammar) {name : String}
    {pattern : Pattern} (found : grammar.token? name = some pattern) :
    ∃ rule ∈ definition.tokens, rule.name = name ∧
      Pattern.compile rule.expression = .ok pattern := by
  obtain ⟨ofTokens, _⟩ := compile_eq_ok_iff.mp compiled
  obtain ⟨rule, mem, checked⟩ := exists_of_mem_mapM ofTokens (mem_of_lookup_eq_some found)
  obtain ⟨pattern, ofSource, same⟩ := bind_eq_ok_iff.mp checked
  cases same
  exact ⟨rule, mem, rfl, ofSource⟩

/-- What a production matches was compiled from the rule that declares it. -/
theorem exists_rule_of_production? (compiled : definition.compile = .ok grammar) {name : String}
    {expression : Expression} (found : grammar.production? name = some expression) :
    ∃ rule ∈ definition.productions, rule.name = name ∧
      Expression.compile rule.expression = .ok expression ∧
      ∀ target ∈ expression.references, target ∈ definition.names := by
  obtain ⟨_, _, ofProductions, _⟩ := compile_eq_ok_iff.mp compiled
  obtain ⟨rule, mem, checked⟩ := exists_of_mem_mapM ofProductions (mem_of_lookup_eq_some found)
  exact ⟨rule, mem, compileProduction_eq_ok checked⟩

/-- Every name of the definition stands for something in the grammar. -/
theorem declares_of_mem_names (compiled : definition.compile = .ok grammar) {name : String}
    (mem : name ∈ definition.names) : grammar.Declares name := by
  rw [names, List.map_append, ← tokens_map_fst compiled, ← productions_map_fst compiled] at mem
  rcases List.mem_append.mp mem with token | production
  · exact .inl (exists_lookup_of_mem token)
  · exact .inr (exists_lookup_of_mem production)

/-- A compiled grammar is closed. -/
theorem closed_of_compile_eq_ok (compiled : definition.compile = .ok grammar) :
    grammar.Closed where
  start := by
    obtain ⟨_, _, _, found, start, _⟩ := compile_eq_ok_iff.mp compiled
    rw [start]
    exact found
  apart := by
    intro name expression found
    have nodup := names_nodup compiled
    rw [names, List.map_append, ← tokens_map_fst compiled, ← productions_map_fst compiled] at nodup
    have production : name ∈ grammar.productions.map Prod.fst :=
      List.mem_map.mpr ⟨_, mem_of_lookup_eq_some found, rfl⟩
    apply List.lookup_eq_none_iff.mpr
    intro token inTokens
    have differ := (List.nodup_append.mp nodup).2.2 token.1
      (List.mem_map.mpr ⟨token, inTokens, rfl⟩) name production
    simpa using differ.symm
  referential := by
    intro name expression found
    obtain ⟨_, _, _, ofSource, _⟩ := exists_rule_of_production? compiled found
    exact fun node mem => (Expression.nodes_of_compile_eq_ok ofSource node mem).1
  declared := by
    intro name expression found node mem target refers
    obtain ⟨_, _, _, _, known⟩ := exists_rule_of_production? compiled found
    refine declares_of_mem_names compiled (known target ?_)
    exact List.mem_filterMap.mpr ⟨node, mem, by rw [refers]; rfl⟩

end Definition

end TextGrammar
