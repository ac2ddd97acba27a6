import TextGrammar.Parse.Run

/-!
What the operations on the progress of a parse change.

Every operation changes one or two fields and leaves the others alone. What is
remembered and what is expected are said here as relations, so that no later
proof opens an operation.
-/

namespace TextGrammar

namespace ParseState

variable (state : ParseState) (event : ParseEvent) (change : Progress → Progress)

@[simp] theorem progress_report : (state.report event).progress = state.progress := rfl

@[simp] theorem progress_update : (state.update change).progress = change state.progress := rfl

end ParseState

namespace Progress

variable (progress : Progress) (key : ProductionAt) (name : String) (offset : Nat)
  (outcome : Remembered)

@[simp] theorem active_enter : (progress.enter key).active = key :: progress.active := rfl

@[simp] theorem active_exit : (progress.exit key).active = progress.active.erase key := rfl

/-- To enter a production and leave it changes nothing. -/
theorem exit_enter : (progress.enter key).exit key = progress := by
  unfold enter exit
  simp only [List.erase_cons_head]

@[simp] theorem refusals_refuse : progress.refuse.refusals = progress.refusals + 1 := rfl

@[simp] theorem active_expect : (progress.expect name offset).active = progress.active := by
  unfold expect
  split
  · rfl
  · split <;> rfl

@[simp] theorem refusals_expect : (progress.expect name offset).refusals = progress.refusals := by
  unfold expect
  split
  · rfl
  · split <;> rfl

@[simp] theorem memo_expect : (progress.expect name offset).memo = progress.memo := by
  unfold expect
  split
  · rfl
  · split <;> rfl

variable {progress key outcome}

/-- What is remembered was remembered before, or is the new entry. -/
theorem mem_memo_remember {entry : ProductionAt × Remembered} :
    entry ∈ (progress.remember key outcome).memo ↔
      entry = (key, outcome) ∨ entry ∈ progress.memo ∧ entry.1 ≠ key := by
  simp [remember]

theorem isActive_iff : progress.isActive key = true ↔ key ∈ progress.active := by
  simp [isActive]

/-! ### What is remembered -/

/-- Something is remembered of the production at the offset. -/
def Remembers (progress : Progress) (key : ProductionAt) : Prop :=
  ∃ outcome, (key, outcome) ∈ progress.memo

/-- What is remembered is what was, and the key that is added. -/
theorem remembers_remember {other : ProductionAt} :
    (progress.remember key outcome).Remembers other ↔ other = key ∨ progress.Remembers other := by
  constructor
  · rintro ⟨found, mem⟩
    rcases mem_memo_remember.mp mem with same | ⟨old, _⟩
    · exact .inl (congrArg Prod.fst same)
    · exact .inr ⟨found, old⟩
  · intro remembers
    by_cases same : other = key
    · exact ⟨outcome, mem_memo_remember.mpr (.inl (by rw [same]))⟩
    · rcases remembers with equal | ⟨found, old⟩
      · exact absurd equal same
      · exact ⟨found, mem_memo_remember.mpr (.inr ⟨old, same⟩)⟩

theorem not_remembers_of_remembered?_eq_none (forgotten : progress.remembered? key = none) :
    ¬ progress.Remembers key := by
  rintro ⟨found, mem⟩
  have := List.lookup_eq_none_iff.mp forgotten (key, found) mem
  simp at this

/-! ### What is expected -/

/-- What another parse has expected is expected here as well, or something that
is further on. -/
def Absorbs (progress other : Progress) : Prop :=
  other.furthest < progress.furthest ∨
    other.furthest = progress.furthest ∧ other.expected ⊆ progress.expected

theorem Absorbs.refl (progress : Progress) : progress.Absorbs progress :=
  .inr ⟨rfl, List.Subset.refl _⟩

/-- Progress that absorbs another one absorbs all that it has absorbed. -/
theorem Absorbs.trans {one two three : Progress} (first : one.Absorbs two)
    (second : two.Absorbs three) : one.Absorbs three := by
  rcases first with further | ⟨same, sub⟩
  · rcases second with further' | ⟨same', _⟩
    · exact .inl (Nat.lt_trans further' further)
    · exact .inl (by omega)
  · rcases second with further' | ⟨same', sub'⟩
    · exact .inl (by omega)
    · exact .inr ⟨same'.trans same, List.Subset.trans sub' sub⟩

/-- To expect something more never takes back what was expected. -/
theorem absorbs_expect (progress : Progress) (name : String) (offset : Nat) :
    (progress.expect name offset).Absorbs progress := by
  unfold expect
  split
  · rename_i further
    exact .inl further
  · split
    · exact .inr ⟨rfl, List.subset_append_left _ _⟩
    · exact .refl progress

/-- What is expected already changes nothing when it is expected again. -/
theorem expect_eq_self {other : Progress} {name : String} {offset : Nat}
    (absorbs : progress.Absorbs (other.expect name offset)) :
    progress.expect name offset = progress := by
  have reached : offset < progress.furthest ∨
      offset = progress.furthest ∧ name ∈ progress.expected := by
    unfold expect at absorbs
    split at absorbs
    · rcases absorbs with further | ⟨same, sub⟩
      · exact .inl further
      · exact .inr ⟨same, sub (List.mem_singleton_self name)⟩
    · rename_i near
      split at absorbs
      · rename_i here
        rcases absorbs with further | ⟨same, sub⟩
        · exact .inl (by simp only at further; omega)
        · have listed := sub (List.mem_append_right _ (List.mem_singleton_self name))
          exact .inr ⟨here.1.trans same, listed⟩
      · rename_i known
        rcases absorbs with further | ⟨same, sub⟩
        · exact .inl (by omega)
        · by_cases here : offset = other.furthest
          · refine .inr ⟨here.trans same, sub ?_⟩
            exact Decidable.not_not.mp fun unknown => known ⟨here, unknown⟩
          · exact .inl (by omega)
  unfold expect
  rcases reached with before | ⟨here, known⟩
  · rw [if_neg (by omega), if_neg (by omega)]
  · rw [if_neg (by omega), if_neg (fun new => new.2 known)]

end Progress

end TextGrammar
