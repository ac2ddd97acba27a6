import TextGrammar.Json.Basic

/-!
Reading back what has been written.

A field is found under its name if the others have other names. What is written into
a list, or into a field that may be missing or null, is read as it was if every value
of its own is, and if none of them is written as null.
-/

namespace TextGrammar.Json

variable {α : Type} {read : Json → Option α} {write : α → Json} {name key : String}
  {value json : Json} {fields front back : List (String × Json)}

/-! ### Fields -/

theorem field_eq_absent_iff :
    field name fields = .absent ↔ fields.filter (fun entry => entry.1 = name) = [] := by
  unfold field
  split
  · rename_i none
    exact iff_of_true rfl none
  · rename_i single
    exact iff_of_false nofun (by simp [single])
  · rename_i some _
    exact iff_of_false nofun some

@[simp]
theorem field_nil : field name [] = .absent := by
  simp [field]

/-- A field with another name is passed over. -/
@[simp]
theorem field_cons_of_ne (other : key ≠ name) :
    field name ((key, value) :: fields) = field name fields := by
  unfold field
  rw [List.filter_cons_of_neg (by simpa using other)]

/-- A field is found if no later one has its name. -/
@[simp]
theorem field_cons_self (once : field name fields = .absent) :
    field name ((name, value) :: fields) = .present value := by
  unfold field
  rw [List.filter_cons_of_pos (by simp), field_eq_absent_iff.mp once]

@[simp]
theorem field_append_eq_absent_iff :
    field name (front ++ back) = .absent ↔
      field name front = .absent ∧ field name back = .absent := by
  simp only [field_eq_absent_iff, List.filter_append, List.append_eq_nil_iff]

@[simp]
theorem field_append_of_absent (absent : field name front = .absent) :
    field name (front ++ back) = field name back := by
  unfold field
  rw [List.filter_append, field_eq_absent_iff.mp absent, List.nil_append]

@[simp]
theorem field_append_of_absent_right (absent : field name back = .absent) :
    field name (front ++ back) = field name front := by
  unfold field
  rw [List.filter_append, field_eq_absent_iff.mp absent, List.append_nil]

@[simp]
theorem required?_cons_self (once : field name fields = .absent) :
    required? name read ((name, value) :: fields) = read value := by
  rw [required?, field_cons_self once]

@[simp]
theorem required?_cons_of_ne (other : key ≠ name) :
    required? name read ((key, value) :: fields) = required? name read fields := by
  rw [required?, required?, field_cons_of_ne other]

@[simp]
theorem optional?_nil {absent : α} : optional? name read absent [] = some absent := by
  simp [optional?]

@[simp]
theorem optional?_cons_self {absent : α} (once : field name fields = .absent) :
    optional? name read absent ((name, value) :: fields) = read value := by
  rw [optional?, field_cons_self once]

@[simp]
theorem optional?_cons_of_ne {absent : α} (other : key ≠ name) :
    optional? name read absent ((key, value) :: fields) = optional? name read absent fields := by
  rw [optional?, optional?, field_cons_of_ne other]

/-! ### Values -/

@[simp]
theorem string?_string (s : String) : (Json.string s).string? = some s :=
  rfl

@[simp]
theorem bool?_bool (b : Bool) : (Json.bool b).bool? = some b :=
  rfl

@[simp]
theorem char?_singleton (c : Char) : (Json.string (String.singleton c)).char? = some c := by
  simp [char?]

/-- A number of 64 bits is read as it is. -/
theorem natural?_natural {n : Nat} (small : n ≤ maxNumber) : (Json.natural n).natural? = some n :=
  if_pos small

/-- A list is read item by item. -/
theorem list?_map {items : List α} (reads : ∀ item ∈ items, read (write item) = some item) :
    list? read (.array (items.map write)) = some items := by
  show (items.map write).mapM read = some items
  induction items with
  | nil => rfl
  | cons item items ih =>
      obtain ⟨first, rest⟩ := List.forall_mem_cons.mp reads
      rw [List.map_cons, List.mapM_cons, first, ih rest]
      rfl

/-- What is not null is read as a value. -/
theorem nullable?_of_ne_null (notNull : json ≠ .null) :
    nullable? read json = (read json).map some := by
  unfold nullable?
  split
  · exact absurd rfl notNull
  · rfl

end TextGrammar.Json
