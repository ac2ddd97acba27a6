import TextGrammar.Parse.Progress
import TextGrammar.Grammar.Compile
import TextGrammar.Proofs.Grammar.Compiled

/-!
The productions that are inside one another.

A production is never entered twice at one offset, so the active ones are
different pairs of a production and an offset of the text. There are only so
many of these, and that bounds how deep productions lie inside one another
(`Grammar.Stack.length_le`).
-/

namespace TextGrammar.Grammar

/-- What the active productions of a parse are like. -/
structure Stack (grammar : Grammar) (text : Text) (active : List ProductionAt) : Prop where
  nodup : active.Nodup
  known : ∀ key ∈ active, ∃ expression, grammar.production? key.production = some expression
  inText : ∀ key ∈ active, key.offset ≤ text.size

namespace Stack

variable {grammar : Grammar} {text : Text} {active : List ProductionAt}

theorem nil (grammar : Grammar) (text : Text) : grammar.Stack text [] where
  nodup := .nil
  known := by simp
  inText := by simp

/-- A production of the grammar may be entered unless it is active. -/
theorem cons {key : ProductionAt} {expression : Expression} (stack : grammar.Stack text active)
    (found : grammar.production? key.production = some expression) (inactive : key ∉ active)
    (inText : key.offset ≤ text.size) : grammar.Stack text (key :: active) where
  nodup := List.nodup_cons.mpr ⟨inactive, stack.nodup⟩
  known := by
    intro other mem
    rcases List.mem_cons.mp mem with rfl | earlier
    · exact ⟨expression, found⟩
    · exact stack.known other earlier
  inText := by
    intro other mem
    rcases List.mem_cons.mp mem with rfl | earlier
    · exact inText
    · exact stack.inText other earlier

/-- Every production of the grammar at every offset of the text. -/
def all (grammar : Grammar) (text : Text) : List ProductionAt :=
  grammar.productions.flatMap fun production =>
    (List.range (text.size + 1)).map fun offset => ⟨production.1, offset⟩

theorem length_all (grammar : Grammar) (text : Text) :
    (all grammar text).length = grammar.productions.length * (text.size + 1) := by
  unfold all
  induction grammar.productions with
  | nil => simp
  | cons production productions ih =>
      rw [List.flatMap_cons, List.length_append, ih, List.length_cons, Nat.succ_mul]
      simp [Nat.add_comm]

/-- There are not more productions inside one another than there are pairs of a
production and an offset. -/
theorem length_le (stack : grammar.Stack text active) :
    active.length ≤ grammar.productions.length * (text.size + 1) := by
  rw [← length_all grammar text]
  apply stack.nodup.length_le_of_subset
  intro key mem
  obtain ⟨expression, found⟩ := stack.known key mem
  have inText := stack.inText key mem
  exact List.mem_flatMap.mpr ⟨_, mem_of_lookup_eq_some found,
    List.mem_map.mpr ⟨key.offset, List.mem_range.mpr (by omega), rfl⟩⟩

end Stack

end TextGrammar.Grammar
