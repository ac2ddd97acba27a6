/-!
Computations that succeed or stop with an error.

What a chain of checks comes to is known once it is known what each check came
to: a success of the whole is a success of every part.
-/

namespace TextGrammar

variable {ε α β γ : Type}

theorem bind_eq_ok_iff {first : Except ε α} {next : α → Except ε β} {result : β} :
    first >>= next = .ok result ↔ ∃ value, first = .ok value ∧ next value = .ok result := by
  cases first with
  | error fault => simp [bind, Except.bind]
  | ok value => simp [bind, Except.bind]

theorem bind_eq_error_iff {first : Except ε α} {next : α → Except ε β} {error : ε} :
    first >>= next = .error error ↔
      first = .error error ∨ ∃ value, first = .ok value ∧ next value = .error error := by
  cases first with
  | error fault => simp [bind, Except.bind]
  | ok value => simp [bind, Except.bind]

theorem mapError_eq_ok_iff {checked : Except ε α} {explain : ε → β} {result : α} :
    checked.mapError explain = .ok result ↔ checked = .ok result := by
  cases checked with
  | error fault => constructor <;> intro same <;> cases same
  | ok value => constructor <;> intro same <;> cases same <;> rfl

theorem map_eq_ok_iff {checked : Except ε α} {view : α → β} {result : β} :
    checked.map view = .ok result ↔ ∃ value, checked = .ok value ∧ view value = result := by
  cases checked with
  | error fault => simp [Except.map]
  | ok value => simp [Except.map]

theorem mapError_eq_error_iff {checked : Except ε α} {explain : ε → β} {error : β} :
    checked.mapError explain = .error error ↔
      ∃ fault, checked = .error fault ∧ explain fault = error := by
  cases checked with
  | error fault =>
      constructor
      · rintro ⟨⟩
        exact ⟨fault, rfl, rfl⟩
      · rintro ⟨_, ⟨⟩, rfl⟩
        rfl
  | ok value =>
      constructor
      · rintro ⟨⟩
      · rintro ⟨_, ⟨⟩, _⟩

theorem map_eq_error_iff {checked : Except ε α} {view : α → β} {error : ε} :
    checked.map view = .error error ↔ checked = .error error := by
  cases checked <;> simp [Except.map]

/-- The error that a check stops with, if it doesn't succeed. -/
def error? : Except ε α → Option ε
  | .error error => some error
  | .ok _ => none

theorem error?_eq_some_iff {checked : Except ε α} {error : ε} :
    error? checked = some error ↔ checked = .error error := by
  cases checked <;> simp [error?]

@[simp] theorem error?_map (checked : Except ε α) (view : α → β) :
    error? (checked.map view) = error? checked := by
  cases checked <;> rfl

/-- Every result of checking a list is the result of checking a member. -/
theorem exists_of_mem_mapM {check : α → Except ε β} {values : List α} {results : List β}
    {result : β} (checked : values.mapM check = .ok results) (mem : result ∈ results) :
    ∃ value ∈ values, check value = .ok result := by
  induction values generalizing results with
  | nil =>
      rw [List.mapM_nil] at checked
      cases checked
      simp at mem
  | cons value values ih =>
      rw [List.mapM_cons] at checked
      obtain ⟨first, firstChecked, more⟩ := bind_eq_ok_iff.mp checked
      obtain ⟨rest, restChecked, same⟩ := bind_eq_ok_iff.mp more
      cases same
      rcases List.mem_cons.mp mem with rfl | later
      · exact ⟨value, List.mem_cons_self, firstChecked⟩
      · obtain ⟨found, inValues, ok⟩ := ih restChecked later
        exact ⟨found, List.mem_cons_of_mem _ inValues, ok⟩

/-- Checking a list succeeds where it succeeds on every member. -/
theorem exists_mapM_iff {check : α → Except ε β} {values : List α} :
    (∃ results, values.mapM check = .ok results) ↔
      ∀ value ∈ values, ∃ result, check value = .ok result := by
  induction values with
  | nil => simp [pure, Except.pure]
  | cons value values ih =>
      rw [List.forall_mem_cons, ← ih]
      constructor
      · rintro ⟨results, checked⟩
        rw [List.mapM_cons] at checked
        obtain ⟨first, firstChecked, more⟩ := bind_eq_ok_iff.mp checked
        obtain ⟨rest, restChecked, _⟩ := bind_eq_ok_iff.mp more
        exact ⟨⟨first, firstChecked⟩, rest, restChecked⟩
      · rintro ⟨⟨first, firstChecked⟩, rest, restChecked⟩
        refine ⟨first :: rest, ?_⟩
        rw [List.mapM_cons, firstChecked, restChecked]
        rfl

/-- What checking keeps of each member, it keeps of the list. -/
theorem map_eq_of_mapM {check : α → Except ε β} {values : List α} {results : List β}
    {view : α → γ} {view' : β → γ} (checked : values.mapM check = .ok results)
    (kept : ∀ value result, check value = .ok result → view' result = view value) :
    results.map view' = values.map view := by
  induction values generalizing results with
  | nil =>
      rw [List.mapM_nil] at checked
      cases checked
      rfl
  | cons value values ih =>
      rw [List.mapM_cons] at checked
      obtain ⟨first, firstChecked, more⟩ := bind_eq_ok_iff.mp checked
      obtain ⟨rest, restChecked, same⟩ := bind_eq_ok_iff.mp more
      cases same
      rw [List.map_cons, List.map_cons, kept _ _ firstChecked, ih restChecked]

end TextGrammar
