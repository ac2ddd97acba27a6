import TextGrammar.Proofs.Parse.Verdict

/-!
Parse trees are right.

A tree that a parse comes to is derived by the grammar from the text, and its
tokens are pieces of the text in order. Where no expression has a negated set,
nothing but skipped whitespace stands between them.
-/

namespace TextGrammar

namespace Definition

variable {definition : Definition} {grammar : Grammar} {text : Text} {tree : ParseTree}

/-- A parse tree is a derivation: its root is a node of the start production,
every leaf stands for what the pattern of its token matches, and the children of
every other node are a word of the expression of its production. -/
theorem derives_of_parse_eq_tree (compiled : definition.compile = .ok grammar)
    (parsed : grammar.parse text = .tree tree) :
    (∃ children, tree = .production grammar.start children) ∧ grammar.Derives text tree := by
  have closed := closed_of_compile_eq_ok compiled
  obtain ⟨label, stop, spans, _⟩ := Grammar.spans_of_parse_eq_tree closed parsed
  have derived : grammar.Derives text tree := spans.derived tree (List.mem_singleton_self tree)
  exact ⟨closed.root_of_derives derived label, derived⟩

/-- Sums that are nested in brackets. -/
def sums : Definition where
  start := "sum"
  tokens := [⟨"number", "[0-9]+"⟩, ⟨"plus", "\\+"⟩, ⟨"open", "\\("⟩, ⟨"close", "\\)"⟩]
  productions := [⟨"sum", "term (plus term)*"⟩, ⟨"term", "number|open sum close"⟩]

theorem sums_derives :
    ∃ grammar tree, sums.compile = .ok grammar ∧ grammar.parse "1 + (20+3)".toList = .tree tree ∧
      (∃ children, tree = .production grammar.start children) ∧
      grammar.Derives "1 + (20+3)".toList tree := by
  obtain ⟨grammar, tree, compiled, parsed, _⟩ :=
    exists_of_yields sums "1 + (20+3)".toList
      (show sums.yields _ (fun _ tree => tree.label == "sum") = true by decide +kernel)
  exact ⟨grammar, tree, compiled, parsed, derives_of_parse_eq_tree compiled parsed⟩

/-- A parse tree loses and invents no text. -/
theorem tokens_of_parse_eq_tree (compiled : definition.compile = .ok grammar)
    (parsed : grammar.parse text = .tree tree) :
    (∀ leaf ∈ tree.tokens, ∃ offset value, leaf.offset = some offset ∧ leaf.value = some value ∧
        value ≠ "" ∧ text.slice? offset (offset + value.utf8ByteSize) = some value.toList) ∧
      tree.tokens.Pairwise (fun earlier later =>
        ∃ stop offset, earlier.stop? = some stop ∧ later.offset = some offset ∧ stop ≤ offset) ∧
      (grammar.NegationFree →
        (∃ stop, (grammar.options.complete = true → stop = text.size) ∧
          text.Laid (fun c => grammar.options.skipWhitespace = true ∧ isWhitespace c = true)
            0 tree.tokens stop) ∧
        (grammar.options.complete = true → grammar.options.skipWhitespace = false →
          tree.text = String.ofList text)) := by
  have closed := closed_of_compile_eq_ok compiled
  obtain ⟨_, stop, spans, atEnd⟩ := Grammar.spans_of_parse_eq_tree closed parsed
  have laid := spans.laid
  rw [ParseTree.tokensOfAll_singleton] at laid
  refine ⟨?_, laid.pairwise, ?_⟩
  · intro leaf mem
    obtain ⟨offset, value, starts, isValue, nonempty, _, between⟩ := laid.slice?_of_mem leaf mem
    exact ⟨offset, value, starts, isValue, nonempty, between⟩
  · intro free
    have whitespace : text.Laid
        (fun c => grammar.options.skipWhitespace = true ∧ isWhitespace c = true)
        0 tree.tokens stop := by
      apply laid.mono
      intro c skips
      rcases skips with whitespace | negating
      · exact whitespace
      · exact absurd free negating
    refine ⟨⟨stop, atEnd, whitespace⟩, ?_⟩
    intro complete keeps
    have gapless : text.Laid (fun _ => False) 0 tree.tokens text.size := by
      rw [← atEnd complete]
      apply whitespace.mono
      intro c blank
      simp [keeps] at blank
    have same := gapless.join
    rw [Text.slice?_zero_size] at same
    cases same
    rw [ParseTree.text, String.ofList_toList]

/-- In a text of nothing but tokens there are no gaps. -/
theorem sums_tokens :
    ∃ grammar tree, (sums.withOptions { skipWhitespace := false }).compile = .ok grammar ∧
      grammar.parse "1+(20+3)".toList = .tree tree ∧ tree.text = "1+(20+3)" := by
  obtain ⟨grammar, tree, compiled, parsed, free⟩ :=
    exists_of_yields (sums.withOptions { skipWhitespace := false }) "1+(20+3)".toList
      (show yields _ _ (fun grammar _ => decide grammar.NegationFree) = true by decide +kernel)
  obtain ⟨_, _, _, _, _, options⟩ := compile_eq_ok_iff.mp compiled
  have gapless := (tokens_of_parse_eq_tree compiled parsed).2.2 (by simpa using free)
  have same := gapless.2 (by rw [options]; rfl) (by rw [options]; rfl)
  exact ⟨grammar, tree, compiled, parsed, same⟩

end Definition

end TextGrammar
