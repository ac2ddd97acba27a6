import TextGrammar.Proofs.Grammar.Closed
import TextGrammar.Proofs.Parse.Nesting
import TextGrammar.Proofs.Parse.Soundness

/-!
Names that a parse comes across.

A definition compiles exactly if it is closed, and a parse with its grammar never
comes across a name that stands for nothing (`Grammar.Reaches.declares`). So the
only errors of a parse are that the input doesn't belong to the grammar and that
the recursion limit is reached. Where the start production matches, its node is
all that the walk has recorded (`Grammar.trees_of_walkStart`).
-/

namespace TextGrammar

/-- The character that ends a lexer early stands in the text where it was found. -/
theorem Lexer.rest?_of_stray {κ : Type} {lexer : Lexer κ} {text : Text} {offset : Nat}
    {stray : Stray} (found : (lexer.tokensFrom text offset).2 = some stray) :
    ∃ rest, text.rest? stray.offset = some (stray.content :: rest) := by
  fun_induction Lexer.tokensFrom lexer text offset with
  | case1 => cases found
  | case2 offset other step =>
      obtain rfl : other = stray := by simpa using found
      unfold Lexer.next at step
      split at step
      · cases step
      · split at step
        · cases step
        · cases step
        · rename_i rest here
          split at step
          · cases step
            exact ⟨rest, here⟩
          · cases step
  | case3 offset token stop step tokens other more ih => exact ih (by simpa [more] using found)

namespace Grammar

variable {grammar : Grammar} {text : Text}

/-- Every reference that a parse begins to match stands for something. -/
theorem Reaches.declares {room : Nat} {name : String} {offset : Nat} {trace : Trace}
    {state : ParseState} (closed : grammar.Closed)
    (reaches : grammar.Reaches text room ⟨.kind (.reference name), offset, trace, state⟩) :
    grammar.Declares name := by
  obtain ⟨_, _, _, sound⟩ := reaches.sound closed
  have meets : grammar.Meets (.reference name) := sound.meets _ List.mem_cons_self
  exact meets.2.1 name rfl

/-- Where the start matches, one tree is recorded: a node of the start production. -/
theorem trees_of_walkStart {stop : Nat} (closed : grammar.Closed)
    (reached : (grammar.walkStart text).outcome = .reached stop) :
    ∃ children, (grammar.walkStart text).trace.trees = [.production grammar.start children] := by
  have met := walkStart_met closed text
  obtain ⟨_, _, word, trees, ⟨root, rfl, label⟩, spans⟩ := met.reached stop reached
  have derived : grammar.Derives text root := spans.derived root (List.mem_singleton_self root)
  obtain ⟨children, rfl⟩ := closed.root_of_derives derived label
  exact ⟨children, by simpa using trees⟩

end Grammar

namespace Definition

/-- A definition compiles exactly if it is closed. With its grammar a parse comes
to a tree or to one of two errors, as no reference is matched that stands for
nothing, and no match of the start goes without its node; and splitting an input
into tokens fails only at a character of it that starts none. -/
theorem compiles_iff_closed (definition : Definition) :
    ((∃ grammar, definition.compile = .ok grammar) ↔ definition.Closed) ∧
      ∀ grammar, definition.compile = .ok grammar → ∀ text : Text,
        ((∃ tree, grammar.parse text = .tree tree) ∨
          (∃ expected offset, grammar.parse text = .error (.parseError expected offset)) ∨
          ∃ production offset,
            grammar.parse text = .error (.recursionLimit production offset)) ∧
        (∀ room name offset trace state,
          grammar.Reaches text room ⟨.kind (.reference name), offset, trace, state⟩ →
            grammar.Declares name) ∧
        (∀ stop, (grammar.walkStart text).outcome = .reached stop → ∃ children,
          (grammar.walkStart text).trace.trees = [.production grammar.start children]) ∧
        ((∃ tokens, grammar.tokenize text = .ok tokens) ∨
          ∃ found offset rest, text.rest? offset = some (found :: rest) ∧
            grammar.tokenize text = .error (.unexpectedCharacter found offset)) := by
  refine ⟨exists_compile_iff, ?_⟩
  intro grammar compiled text
  have closed := closed_of_compile_eq_ok compiled
  refine ⟨?_, ?_, ?_, ?_⟩
  · cases verdict : grammar.parse text with
    | tree tree => exact .inl ⟨tree, rfl⟩
    | misplaced => exact absurd verdict (grammar.parse_ne_misplaced closed text)
    | error error =>
        rcases Grammar.parse_eq_error closed verdict with
          ⟨expected, offset, rfl⟩ | ⟨⟨production, offset, rfl⟩, _⟩
        · exact .inr (.inl ⟨expected, offset, rfl⟩)
        · exact .inr (.inr ⟨production, offset, rfl⟩)
  · intro room name offset trace state reaches
    exact reaches.declares closed
  · intro stop reached
    exact Grammar.trees_of_walkStart closed reached
  · unfold Grammar.tokenize Lexer.tokenize
    split
    · rename_i tokens _
      exact .inl ⟨tokens, rfl⟩
    · rename_i tokens stray ends
      obtain ⟨rest, here⟩ := Lexer.rest?_of_stray (congrArg Prod.snd ends)
      exact .inr ⟨stray.content, stray.offset, rest, here, rfl⟩

/-- The rules of sums name one another in groups and alternatives. -/
theorem sums_compiles_iff_closed :
    ∃ grammar, sums.compile = .ok grammar ∧ sums.Closed ∧
      ∃ children, (grammar.walkStart "1 + (20+3)".toList).trace.trees =
        [.production "sum" children] := by
  obtain ⟨grammar, _, compiled, _, test⟩ :=
    exists_of_yields sums "1 + (20+3)".toList
      (show sums.yields _ (fun grammar _ => decide (grammar.start = "sum" ∧
        (grammar.walkStart "1 + (20+3)".toList).outcome = .reached 10)) = true by decide +kernel)
  obtain ⟨start, reached⟩ := of_decide_eq_true test
  obtain ⟨accepts, runs⟩ := compiles_iff_closed sums
  obtain ⟨_, _, recorded, _⟩ := runs grammar compiled "1 + (20+3)".toList
  obtain ⟨children, trees⟩ := recorded 10 reached
  exact ⟨grammar, compiled, accepts.mp ⟨grammar, compiled⟩, children, by rw [trees, start]⟩

end Definition

end TextGrammar
