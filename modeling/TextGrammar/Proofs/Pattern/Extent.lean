import TextGrammar.Pattern.Match
import TextGrammar.Proofs.Walk.Contract

/-!
Where matches of patterns lie.

A match starts at the place where it was looked for and ends at a place of the
text that is not before it.
-/

namespace TextGrammar.Pattern

/-- What the walk of a pattern keeps: it has no trees to show. -/
def contract : Contract Empty Unit where
  meets := fun _ => True
  holds := fun _ => True
  span := fun start word stop => start ≤ stop ∧ word = []
  raises := fun _ => True

theorem contract_lawful (text : Text) : contract.Lawful { text, resolve := noReferences } where
  here := fun _ => ⟨Nat.le_refl _, rfl⟩
  join := by
    rintro start middle stop front back ⟨le, rfl⟩ ⟨le', rfl⟩
    exact ⟨Nat.le_trans le le', rfl⟩
  tokenless := by
    rintro offset word ⟨_, rfl⟩
    rw [ParseTree.tokensOfAll]
  character := fun _ _ between => ⟨Text.le_of_slice? between, rfl⟩
  reference := fun _ _ _ => Contract.met_of_failed trivial rfl
  tidy := fun _ _ _ _ _ => rfl
  enough := fun _ => Nat.le_refl _

/-- Past the end of the text and inside a character there is no match. -/
theorem matchAt?_eq_none (pattern : Pattern) {text : Text} {offset : Nat}
    (misplaced : ¬ text.IsPlace offset) : pattern.matchAt? text offset = none := by
  have noPlace : ¬ (text.rest? offset).isSome = true := by
    rw [Option.isSome_iff_exists, ← Text.isPlace_iff]
    exact misplaced
  rw [matchAt?, if_neg noPlace]

/-- A match is put together from where a walk ends and what it has captured. -/
theorem exists_walk_of_matchAt? {pattern : Pattern} {text : Text} {offset : Nat} {m : Match}
    (found : pattern.matchAt? text offset = some m) :
    text.IsPlace offset ∧ ∃ stop, (pattern.walk text offset).outcome = .reached stop ∧
      m = .ofTrace offset stop (pattern.walk text offset).trace := by
  unfold matchAt? at found
  split at found
  · rename_i rest
    refine ⟨Text.isPlace_iff.mpr (Option.isSome_iff_exists.mp rest), ?_⟩
    simp only at found
    split at found
    · rename_i stop reached
      cases found
      exact ⟨stop, reached, rfl⟩
    · cases found
  · cases found

/-- A match lies between two places of the text. -/
theorem extent_of_matchAt? {pattern : Pattern} {text : Text} {offset : Nat} {m : Match}
    (found : pattern.matchAt? text offset = some m) :
    text.IsPlace offset ∧ m.start = offset ∧ text.IsPlace m.stop ∧ offset ≤ m.stop := by
  obtain ⟨place, stop, reached, rfl⟩ := exists_walk_of_matchAt? found
  have met := Sequence.walk_met (contract_lawful text) pattern.root (fun _ _ => trivial)
    offset { } () place trivial
  have passage := met.reached stop reached
  exact ⟨place, rfl, passage.place, passage.le⟩

/-- A match that isn't empty ends further on. -/
theorem lt_of_matchAt? {pattern : Pattern} {text : Text} {offset : Nat} {m : Match}
    (found : pattern.matchAt? text offset = some m) (nonempty : m.isEmpty = false) :
    offset < m.stop := by
  obtain ⟨_, rfl, _, _⟩ := extent_of_matchAt? found
  simpa [Match.isEmpty] using nonempty

/-- The text of a match that isn't empty. -/
theorem exists_slice?_of_matchAt? {pattern : Pattern} {text : Text} {offset : Nat} {m : Match}
    (found : pattern.matchAt? text offset = some m) (nonempty : m.isEmpty = false) :
    ∃ value, text.slice? offset m.stop = some value ∧ value ≠ [] := by
  obtain ⟨starts, _, stops, le⟩ := extent_of_matchAt? found
  obtain ⟨value, between⟩ := Text.exists_slice? starts stops le
  refine ⟨value, between, ?_⟩
  rintro rfl
  have sized := Text.add_size_of_slice? between
  have := lt_of_matchAt? found nonempty
  rw [Text.size_nil] at sized
  omega

end TextGrammar.Pattern
