import TextGrammar.Proofs.Grammar.Compiled

/-!
Closed definitions.

A definition is closed when all of its sources can be read, its names are
different from one another, every name that stands anywhere in an expression is
one of them, and the start is a production. `Definition.exists_compile_iff` says
that the closed definitions are the ones that compile. Where a name stands in an
expression is said by `Node.Mentions`, which looks into groups, sets and
alternatives; that the list of references leaves none of these places out is
`Sequence.mem_references_iff`.
-/

namespace TextGrammar

/-! ### Names in sequences -/

/-- The node is a reference with this name, or one stands inside it: in a group,
under whichever alternative, or in a set. -/
inductive Node.Mentions (name : String) : Node → Prop where
  | reference {quantifier : Option Quantifier} : Node.Mentions name ⟨.reference name, quantifier⟩
  | group {number : Nat} {body : Sequence} {quantifier : Option Quantifier} {nodes : List Node}
      {inner : Node} : nodes ∈ body.alternatives → inner ∈ nodes → Node.Mentions name inner →
      Node.Mentions name ⟨.group number body, quantifier⟩
  | set {items : List Node} {negated : Bool} {quantifier : Option Quantifier} {item : Node} :
      item ∈ items → Node.Mentions name item →
      Node.Mentions name ⟨.set items negated, quantifier⟩

/-- A reference with this name stands somewhere in the sequence. -/
def Sequence.Mentions (sequence : Sequence) (name : String) : Prop :=
  ∃ nodes ∈ sequence.alternatives, ∃ node ∈ nodes, node.Mentions name

theorem Node.mem_visitAll {inner : Node} {nodes : List Node} :
    inner ∈ Node.visitAll nodes ↔ ∃ node ∈ nodes, inner ∈ node.visit := by
  induction nodes with
  | nil => simp [Node.visitAll]
  | cons node nodes ih => simp [Node.visitAll, ih]

theorem Sequence.mem_visit {inner : Node} {sequence : Sequence} :
    inner ∈ sequence.visit ↔
      ∃ nodes ∈ sequence.alternatives, ∃ node ∈ nodes, inner ∈ node.visit := by
  cases sequence with
  | only nodes => simp [Sequence.visit, Sequence.alternatives, Node.mem_visitAll]
  | either nodes alternate =>
      have later : inner ∈ alternate.visit ↔ _ := Sequence.mem_visit
      simp [Sequence.visit, Sequence.alternatives, Node.mem_visitAll, later]

/-- Wherever a name stands in a node, a visit comes across it. -/
theorem Node.Mentions.exists_mem_visit {name : String} {node : Node}
    (mentions : node.Mentions name) : ∃ inner ∈ node.visit, inner.kind = .reference name := by
  induction mentions with
  | reference => exact ⟨_, by rw [Node.visit]; exact List.mem_cons_self, rfl⟩
  | group isAlternative inNodes _ ih =>
      obtain ⟨inner, mem, refers⟩ := ih
      have inBody := Sequence.mem_visit.mpr ⟨_, isAlternative, _, inNodes, mem⟩
      exact ⟨inner, by rw [Node.visit, Kind.visit]; exact List.mem_cons_of_mem _ inBody, refers⟩
  | set isItem _ ih =>
      obtain ⟨inner, mem, refers⟩ := ih
      have inItems := Node.mem_visitAll.mpr ⟨_, isItem, mem⟩
      exact ⟨inner, by rw [Node.visit, Kind.visit]; exact List.mem_cons_of_mem _ inItems, refers⟩

mutual

/-- A reference that a visit comes across stands in the node. -/
theorem Node.mentions_of_mem_visit {name : String} {inner : Node}
    (refers : inner.kind = .reference name) :
    ∀ (node : Node), inner ∈ node.visit → node.Mentions name
  | ⟨kind, quantifier⟩, mem => by
      rw [Node.visit] at mem
      rcases List.mem_cons.mp mem with rfl | below
      · obtain rfl : kind = .reference name := refers
        exact .reference
      · cases kind with
        | group number body =>
            rw [Kind.visit] at below
            obtain ⟨nodes, isAlternative, node, inNodes, mentions⟩ :=
              Sequence.mentions_of_mem_visit refers body below
            exact .group isAlternative inNodes mentions
        | set items negated =>
            rw [Kind.visit] at below
            obtain ⟨item, isItem, mentions⟩ :=
              Node.exists_mentions_of_mem_visitAll refers items below
            exact .set isItem mentions
        | single | wordBoundary | reference => simp [Kind.visit] at below

theorem Node.exists_mentions_of_mem_visitAll {name : String} {inner : Node}
    (refers : inner.kind = .reference name) :
    ∀ (nodes : List Node), inner ∈ Node.visitAll nodes → ∃ node ∈ nodes, node.Mentions name
  | [], mem => by simp [Node.visitAll] at mem
  | node :: nodes, mem => by
      rw [Node.visitAll] at mem
      rcases List.mem_append.mp mem with first | later
      · exact ⟨node, List.mem_cons_self, Node.mentions_of_mem_visit refers node first⟩
      · obtain ⟨other, isNode, mentions⟩ := Node.exists_mentions_of_mem_visitAll refers nodes later
        exact ⟨other, List.mem_cons_of_mem _ isNode, mentions⟩

theorem Sequence.mentions_of_mem_visit {name : String} {inner : Node}
    (refers : inner.kind = .reference name) :
    ∀ (sequence : Sequence), inner ∈ sequence.visit → sequence.Mentions name
  | .only nodes, mem => by
      rw [Sequence.visit] at mem
      exact ⟨nodes, by simp [Sequence.alternatives],
        Node.exists_mentions_of_mem_visitAll refers nodes mem⟩
  | .either nodes alternate, mem => by
      rw [Sequence.visit] at mem
      rcases List.mem_append.mp mem with first | later
      · exact ⟨nodes, by simp [Sequence.alternatives],
          Node.exists_mentions_of_mem_visitAll refers nodes first⟩
      · obtain ⟨others, isAlternative, mentions⟩ :=
          Sequence.mentions_of_mem_visit refers alternate later
        exact ⟨others, by simp [Sequence.alternatives, isAlternative], mentions⟩

end

/-- The references of a sequence are the names that stand in it. -/
theorem Sequence.mem_references_iff {sequence : Sequence} {name : String} :
    name ∈ sequence.references ↔ sequence.Mentions name := by
  constructor
  · intro mem
    obtain ⟨inner, inside, refers⟩ := List.mem_filterMap.mp mem
    apply Sequence.mentions_of_mem_visit ?_ sequence inside
    cases kind : inner.kind with
    | reference other =>
        rw [kind] at refers
        cases refers
        rfl
    | group | set | single | wordBoundary =>
        rw [kind] at refers
        cases refers
  · rintro ⟨nodes, isAlternative, node, inNodes, mentions⟩
    obtain ⟨inner, inside, refers⟩ := mentions.exists_mem_visit
    apply List.mem_filterMap.mpr
    exact ⟨inner, Sequence.mem_visit.mpr ⟨nodes, isAlternative, node, inNodes, inside⟩,
      by rw [refers]; rfl⟩

/-! ### Definitions -/

theorem firstRepeated?_eq_none_of_nodup {α : Type} [DecidableEq α] {seen values : List α}
    (nodup : values.Nodup) (unseen : ∀ value ∈ values, value ∉ seen) :
    firstRepeated? seen values = none := by
  induction values generalizing seen with
  | nil => rfl
  | cons value values ih =>
      obtain ⟨other, nodup⟩ := List.nodup_cons.mp nodup
      rw [firstRepeated?, if_neg (unseen value List.mem_cons_self)]
      apply ih nodup
      intro later mem inSeen
      rcases List.mem_cons.mp inSeen with rfl | before
      · exact other mem
      · exact unseen later (List.mem_cons_of_mem _ mem) before

namespace Definition

/-- Every source can be read, and every name has exactly one meaning. -/
structure Closed (definition : Definition) : Prop where
  patterns : ∀ rule ∈ definition.tokens, ∃ pattern, Pattern.compile rule.expression = .ok pattern
  distinct : definition.names.Nodup
  expressions : ∀ rule ∈ definition.productions, ∃ expression,
    Expression.compile rule.expression = .ok expression ∧
      ∀ name, expression.root.Mentions name → name ∈ definition.names
  start : ∃ rule ∈ definition.productions, rule.name = definition.start

variable {definition : Definition} {grammar : Grammar}

theorem checkNames_eq_ok_iff : definition.checkNames = .ok () ↔ definition.names.Nodup := by
  unfold checkNames
  constructor
  · intro checked
    split at checked
    · cases checked
    · exact (nodup_of_firstRepeated?_eq_none ‹_›).1
  · intro nodup
    rw [firstRepeated?_eq_none_of_nodup nodup (by simp)]

theorem exists_compileToken_iff {rule : Rule} :
    (∃ token, rule.compileToken = .ok token) ↔
      ∃ pattern, Pattern.compile rule.expression = .ok pattern := by
  unfold Rule.compileToken
  constructor
  · rintro ⟨token, checked⟩
    obtain ⟨pattern, ofSource, _⟩ := bind_eq_ok_iff.mp checked
    exact ⟨pattern, ofSource⟩
  · rintro ⟨pattern, ofSource⟩
    exact ⟨_, bind_eq_ok_iff.mpr ⟨pattern, ofSource, rfl⟩⟩

theorem exists_compileProduction_iff {names : List String} {rule : Rule} :
    (∃ production, rule.compileProduction names = .ok production) ↔
      ∃ expression, Expression.compile rule.expression = .ok expression ∧
        ∀ name, expression.root.Mentions name → name ∈ names := by
  constructor
  · rintro ⟨⟨name, expression⟩, checked⟩
    obtain ⟨_, ofSource, known⟩ := compileProduction_eq_ok checked
    exact ⟨expression, ofSource, fun name mentions =>
      known name (Sequence.mem_references_iff.mpr mentions)⟩
  · rintro ⟨expression, ofSource, known⟩
    have none : (expression.references.find? fun name => name ∉ names) = none := by
      apply List.find?_eq_none.mpr
      intro name mem
      simpa using known name (Sequence.mem_references_iff.mp mem)
    refine ⟨(rule.name, expression), ?_⟩
    rw [Rule.compileProduction, ofSource]
    simp only [bind, Except.bind, none]
    rfl

/-- The definitions that compile are the closed ones. -/
theorem exists_compile_iff : (∃ grammar, definition.compile = .ok grammar) ↔ definition.Closed := by
  constructor
  · rintro ⟨grammar, compiled⟩
    obtain ⟨ofTokens, distinct, ofProductions, ⟨_, found⟩, _⟩ := compile_eq_ok_iff.mp compiled
    have startMem : definition.start ∈ grammar.productions.map Prod.fst :=
      List.mem_map.mpr ⟨_, mem_of_lookup_eq_some found, rfl⟩
    rw [productions_map_fst compiled] at startMem
    obtain ⟨rule, isRule, named⟩ := List.mem_map.mp startMem
    exact {
      patterns := fun rule mem =>
        exists_compileToken_iff.mp (exists_mapM_iff.mp ⟨_, ofTokens⟩ rule mem)
      distinct := checkNames_eq_ok_iff.mp distinct
      expressions := fun rule mem =>
        exists_compileProduction_iff.mp (exists_mapM_iff.mp ⟨_, ofProductions⟩ rule mem)
      start := ⟨rule, isRule, named⟩ }
  · intro closed
    obtain ⟨tokens, ofTokens⟩ := exists_mapM_iff.mpr fun rule mem =>
      exists_compileToken_iff.mpr (closed.patterns rule mem)
    obtain ⟨productions, ofProductions⟩ := exists_mapM_iff.mpr fun rule mem =>
      exists_compileProduction_iff.mpr (closed.expressions rule mem)
    have names : productions.map Prod.fst = definition.productions.map Rule.name :=
      map_eq_of_mapM ofProductions fun rule production checked =>
        (compileProduction_eq_ok checked).1.symm
    obtain ⟨rule, isRule, named⟩ := closed.start
    obtain ⟨expression, found⟩ :
        ∃ expression, productions.lookup definition.start = some expression := by
      apply exists_lookup_of_mem
      rw [names, ← named]
      exact List.mem_map_of_mem isRule
    exact ⟨⟨definition.start, tokens, productions, definition.options⟩,
      compile_eq_ok_iff.mpr ⟨ofTokens, checkNames_eq_ok_iff.mpr closed.distinct, ofProductions,
        ⟨expression, found⟩, rfl, rfl⟩⟩

end Definition

end TextGrammar
