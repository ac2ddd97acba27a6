import TextGrammar.Proofs.Pattern.Denotation
import TextGrammar.Proofs.Pattern.RoundTrip

/-!
Sets and their negations.

A set of a compiled pattern holds classes of single characters, and nothing that
matches the empty text or more than one character. So a set and the same set
negated divide the characters between them: wherever there is a character, one of
the two matches it, all of its bytes and no more, and the other one fails
(`Pattern.set_partitions`). Neither of them leaves a record.
-/

namespace TextGrammar

/-! ### The nodes of a well-formed sequence -/

/-- There is nothing inside the nodes of a set. -/
theorem Node.visitAll_of_isItem {items : List Node} (allItems : ∀ item ∈ items, item.IsItem) :
    Node.visitAll items = items := by
  induction items with
  | nil => rw [Node.visitAll]
  | cons item items ih =>
      obtain ⟨⟨chars, _, rfl⟩, others⟩ := List.forall_mem_cons.mp allItems
      rw [Node.visitAll, Node.visit, Kind.visit, ih others, List.singleton_append]

mutual

theorem Kind.isItem_or_wellFormed : ∀ kind : Kind, kind.WellFormed →
    ∀ node ∈ kind.visit, node.IsItem ∨ node.WellFormed
  | .group _ body, wellFormed, node, visited => by
      rw [Kind.WellFormed] at wellFormed
      rw [Kind.visit] at visited
      exact body.isItem_or_wellFormed wellFormed node visited
  | .set items _, wellFormed, node, visited => by
      rw [Kind.WellFormed] at wellFormed
      rw [Kind.visit, Node.visitAll_of_isItem wellFormed] at visited
      exact .inl (wellFormed node visited)
  | .single _, _, node, visited | .wordBoundary, _, node, visited
  | .reference _, _, node, visited => by
      rw [Kind.visit] at visited
      cases visited

theorem Node.isItem_or_wellFormed : ∀ node : Node, node.WellFormed →
    ∀ inner ∈ node.visit, inner.IsItem ∨ inner.WellFormed
  | ⟨kind, quantifier⟩, wellFormed, inner, visited => by
      rw [Node.visit] at visited
      cases visited with
      | head => exact .inr wellFormed
      | tail _ visited =>
          rw [Node.WellFormed] at wellFormed
          exact kind.isItem_or_wellFormed wellFormed.1 inner visited

theorem Node.allIsItem_or_wellFormed : ∀ nodes : List Node, Node.AllWellFormed nodes →
    ∀ inner ∈ Node.visitAll nodes, inner.IsItem ∨ inner.WellFormed
  | [], _, inner, visited => by
      rw [Node.visitAll] at visited
      cases visited
  | node :: nodes, wellFormed, inner, visited => by
      rw [Node.AllWellFormed] at wellFormed
      rw [Node.visitAll] at visited
      rcases List.mem_append.mp visited with here | later
      · exact node.isItem_or_wellFormed wellFormed.1 inner here
      · exact Node.allIsItem_or_wellFormed nodes wellFormed.2 inner later

/-- Every node of a well-formed sequence is well-formed, or an item of a set. -/
theorem Sequence.isItem_or_wellFormed : ∀ sequence : Sequence, sequence.WellFormed →
    ∀ node ∈ sequence.visit, node.IsItem ∨ node.WellFormed
  | .only nodes, wellFormed, node, visited => by
      rw [Sequence.WellFormed] at wellFormed
      rw [Sequence.visit] at visited
      exact Node.allIsItem_or_wellFormed nodes wellFormed node visited
  | .either nodes alternate, wellFormed, node, visited => by
      rw [Sequence.WellFormed] at wellFormed
      rw [Sequence.visit] at visited
      rcases List.mem_append.mp visited with here | later
      · exact Node.allIsItem_or_wellFormed nodes wellFormed.1 node here
      · exact alternate.isItem_or_wellFormed wellFormed.2 node later

end

/-- Wherever a set occurs in a well-formed sequence, it holds items only. -/
theorem Sequence.WellFormed.set_items {sequence : Sequence} {items : List Node} {negated : Bool}
    {quantifier : Option Quantifier} (wellFormed : sequence.WellFormed)
    (occurs : ⟨.set items negated, quantifier⟩ ∈ sequence.visit) :
    ∀ item ∈ items, item.IsItem := by
  rcases sequence.isItem_or_wellFormed wellFormed _ occurs with ⟨chars, _, same⟩ | inside
  · cases same
  · rw [Node.WellFormed, Kind.WellFormed] at inside
    exact inside.1

/-! ### The walk of a set -/

section Walk

variable {ε σ : Type} {setting : Setting ε σ} {offset : Nat} {items : List Node}

/-- To try items leaves no record. -/
theorem Node.walkAny_of_isItem (setting : Setting ε σ) (allItems : ∀ item ∈ items, item.IsItem)
    (offset : Nat) (trace : Trace) (state : σ) :
    Node.walkAny setting items offset trace state =
      ⟨(Node.walkAny setting items offset trace state).outcome, trace, state⟩ := by
  induction items with
  | nil => rw [Node.walkAny]
  | cons item items ih =>
      obtain ⟨⟨chars, _, rfl⟩, others⟩ := List.forall_mem_cons.mp allItems
      rw [Node.walkAny_cons, Kind.walk]
      by_cases fails : (setting.text.matchChar chars.accepts offset : Outcome ε) = .failed
      · rw [Walked.orElse_of_failed fails]
        exact ih others
      · rw [Walked.orElse_of_not_failed fails]

/-- At a place in the text a set of items matches one character, or fails, and leaves
no record. -/
theorem Kind.walk_set (place : setting.text.IsPlace offset) (trace : Trace) (state : σ)
    (allItems : ∀ item ∈ items, item.IsItem) (negated : Bool) :
    (Kind.set items negated).walk setting offset trace state =
      ⟨setting.text.matchChar
        (fun c => (items.any fun item => item.kind.accepts c) != negated) offset, trace, state⟩ := by
  have quiet := Node.walkAny_of_isItem setting allItems offset trace state
  have outcome := Kind.outcome_walk_set place trace state allItems negated
  cases negated with
  | false =>
      rw [Kind.walk] at outcome ⊢
      rw [quiet, outcome]
  | true =>
      rw [Kind.walk_negated] at outcome ⊢
      rw [quiet] at outcome ⊢
      rw [← outcome]
      unfold Walked.negate
      split <;> rfl

end Walk

namespace Pattern

variable {ε σ : Type}

/-- A set that occurs in a compiled pattern and the same set turned around divide the
characters between them. Before the end of the text one of the two matches just the
character that is there, the set as it is if an item accepts the character and the
negated one if none does, and the other one fails. At the end both fail. -/
theorem set_partitions {source : String} {pattern : Pattern} {items : List Node}
    {negated : Bool} {quantifier : Option Quantifier} (compiled : compile source = .ok pattern)
    (occurs : ⟨.set items negated, quantifier⟩ ∈ pattern.root.visit) (setting : Setting ε σ)
    {offset : Nat} (place : setting.text.IsPlace offset) (trace : Trace) (state : σ) :
    (offset < setting.text.size → ∃ (c : Char) (rest : Text) (accepted : Bool),
      setting.text.rest? offset = some (c :: rest) ∧
      (accepted = true ↔ ∃ item ∈ items, item.kind.accepts c = true) ∧
      (Kind.set items (!accepted)).walk setting offset trace state =
        ⟨.reached (offset + c.utf8Size), trace, state⟩ ∧
      (Kind.set items accepted).walk setting offset trace state = ⟨.failed, trace, state⟩) ∧
    (offset = setting.text.size → ∀ turned : Bool,
      (Kind.set items turned).walk setting offset trace state = ⟨.failed, trace, state⟩) := by
  obtain ⟨_, wellFormed, _⟩ := isPattern_of_compile_eq_ok compiled
  have walks := Kind.walk_set place trace state (wellFormed.set_items occurs)
  obtain ⟨rest, found⟩ := Text.isPlace_iff.mp place
  have ends := Text.size_of_rest?_eq_some found
  constructor
  · intro before
    cases rest with
    | nil => simp only [Text.size_nil] at ends; omega
    | cons c rest =>
        refine ⟨c, rest, items.any fun item => item.kind.accepts c, found, List.any_eq_true, ?_, ?_⟩
        · rw [walks]
          simp [Text.matchChar, found]
        · rw [walks]
          simp [Text.matchChar, found]
  · intro atEnd turned
    cases rest with
    | nil =>
        rw [walks]
        simp [Text.matchChar, found]
    | cons c rest =>
        have := c.utf8Size_pos
        simp only [Text.size_cons] at ends
        omega

/-- Digits and the underscore. -/
def marks : List Node :=
  [.one (.single .digit), .one (.literal '_')]

/-- Of a letter with two bytes the negated set takes both, and the set itself takes
nothing; at the end of the text there is nothing for either of them. -/
theorem marks_partition :
    let setting : Setting Empty Unit := { text := "é".toList, resolve := noReferences }
    compile "[^\\d_]" = .ok ⟨"[^\\d_]", .only [.one (.set marks true)], 0⟩ ∧
    (Kind.set marks true).walk setting 0 { } () = ⟨.reached 2, { }, ()⟩ ∧
    (Kind.set marks false).walk setting 0 { } () = ⟨.failed, { }, ()⟩ ∧
    ∀ turned, (Kind.set marks turned).walk setting 2 { } () = ⟨.failed, { }, ()⟩ := by
  intro setting
  have items : ∀ item ∈ marks, item.IsItem :=
    List.forall_mem_cons.mpr ⟨⟨.digit, trivial, rfl⟩,
      List.forall_mem_singleton.mpr ⟨.literal '_', trivial, rfl⟩⟩
  have isPattern : (Sequence.only [.one (.set marks true)]).IsPattern 0 := by
    refine ⟨?_, rfl⟩
    simp only [Sequence.WellFormed, Node.AllWellFormed, Node.one, Node.WellFormed,
      Kind.WellFormed]
    exact ⟨⟨items, by simp⟩, trivial⟩
  have printed : print (.only [.one (.set marks true)]) = "[^\\d_]" := by decide +kernel
  have compiled := compile_print isPattern
  rw [printed] at compiled
  have occurs : Node.one (.set marks true) ∈ (Sequence.only [.one (.set marks true)]).visit :=
    List.mem_cons_self
  obtain ⟨before, _⟩ := set_partitions compiled occurs setting (Text.isPlace_zero _) { } ()
  obtain ⟨_, atEnd⟩ := set_partitions compiled occurs setting
    (show Text.IsPlace _ 2 from Text.isPlace_iff.mpr ⟨[], rfl⟩) { } ()
  obtain ⟨c, rest, accepted, found, accepts, takes, leaves⟩ := before (by decide)
  obtain ⟨rfl, rfl⟩ : 'é' = c ∧ [] = rest := by simpa [setting, Text.rest?] using found
  obtain rfl : accepted = false := by
    rw [← Bool.not_eq_true, accepts]
    decide
  exact ⟨compiled, takes, leaves, atEnd rfl⟩

end Pattern

end TextGrammar
