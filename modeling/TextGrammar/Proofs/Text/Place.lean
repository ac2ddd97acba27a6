import TextGrammar.CharClass

/-!
Places in a text, and the stretches between them.

An offset is a place when the text can be cut there. `slice?_eq_some_iff` says
what a stretch is without counting, and from it follow the laws that the walks
need: two places in order have a stretch between them (`exists_slice?`), and
neighbouring stretches join (`slice?_append`).
-/

namespace TextGrammar.Text

/-- The offset lies between two characters of the text, or at one of its ends. -/
def IsPlace (text : Text) (offset : Nat) : Prop :=
  ∃ front back : Text, text = front ++ back ∧ front.size = offset

variable {text : Text} {start stop offset : Nat}

theorem isPlace_iff : text.IsPlace offset ↔ ∃ rest, text.rest? offset = some rest := by
  constructor
  · rintro ⟨front, back, whole, sized⟩
    exact ⟨back, rest?_eq_some_iff.mpr ⟨front, whole, sized⟩⟩
  · rintro ⟨back, found⟩
    obtain ⟨front, whole, sized⟩ := rest?_eq_some_iff.mp found
    exact ⟨front, back, whole, sized⟩

theorem isPlace_zero (text : Text) : text.IsPlace 0 :=
  ⟨[], text, rfl, rfl⟩

/-- A text has no place past its end. -/
theorem IsPlace.le_size (place : text.IsPlace offset) : offset ≤ text.size := by
  obtain ⟨front, back, rfl, rfl⟩ := place
  simp

/-- Of two ways to cut a text, the one that cuts later keeps the other's front. -/
theorem prefix_of_append_eq {front back front' back' : Text}
    (same : front ++ back = front' ++ back') (le : front.size ≤ front'.size) :
    ∃ between, front' = front ++ between ∧ back = between ++ back' := by
  rcases List.append_eq_append_iff.mp same with ⟨between, rfl, rfl⟩ | ⟨between, rfl, rfl⟩
  · exact ⟨between, rfl, rfl⟩
  · cases between with
    | nil => exact ⟨[], by simp, by simp⟩
    | cons c cs =>
        have := c.utf8Size_pos
        simp only [size_append, size_cons] at le
        omega

/-- A stretch of text has a front before it and a back after it. -/
theorem exists_parts_of_slice? {between : Text} (found : text.slice? start stop = some between) :
    ∃ front back, text = front ++ (between ++ back) ∧ front.size = start ∧
      start + between.size = stop := by
  unfold slice? at found
  split at found
  · rename_i le
    obtain ⟨rest, restFound, cut⟩ := Option.bind_eq_some_iff.mp found
    obtain ⟨⟨between', back⟩, split, rfl⟩ := Option.map_eq_some_iff.mp cut
    obtain ⟨front, rfl, rfl⟩ := rest?_eq_some_iff.mp restFound
    obtain ⟨rfl, sized⟩ := split?_eq_some_iff.mp split
    exact ⟨front, back, rfl, rfl, by simp only; omega⟩
  · cases found

/-- What stands between a front and a back is found between their offsets. -/
theorem slice?_parts (front between back : Text) :
    slice? (front ++ (between ++ back)) front.size (front.size + between.size) = some between := by
  unfold slice?
  rw [if_pos (Nat.le_add_right _ _), rest?_eq_some_iff.mpr ⟨front, rfl, rfl⟩]
  have cut : (between ++ back).split? (front.size + between.size - front.size) =
      some (between, back) :=
    split?_eq_some_iff.mpr ⟨rfl, by omega⟩
  rw [Option.bind_some, cut]
  rfl

/-- What lies between two offsets is what is left between a front and a back of
the right sizes. -/
theorem slice?_eq_some_iff {between : Text} :
    text.slice? start stop = some between ↔
      ∃ front back, text = front ++ (between ++ back) ∧ front.size = start ∧
        start + between.size = stop := by
  constructor
  · exact exists_parts_of_slice?
  · rintro ⟨front, back, rfl, rfl, rfl⟩
    exact slice?_parts front between back

section Slices

variable {between : Text}

theorem isPlace_start_of_slice? (found : text.slice? start stop = some between) :
    text.IsPlace start := by
  obtain ⟨front, back, whole, sized, _⟩ := slice?_eq_some_iff.mp found
  exact ⟨front, between ++ back, whole, sized⟩

theorem isPlace_stop_of_slice? (found : text.slice? start stop = some between) :
    text.IsPlace stop := by
  obtain ⟨front, back, whole, sized, rfl⟩ := slice?_eq_some_iff.mp found
  exact ⟨front ++ between, back, by simp [whole], by simp [sized]⟩

theorem add_size_of_slice? (found : text.slice? start stop = some between) :
    start + between.size = stop := by
  obtain ⟨_, _, _, _, ends⟩ := slice?_eq_some_iff.mp found
  exact ends

theorem le_of_slice? (found : text.slice? start stop = some between) : start ≤ stop := by
  have := add_size_of_slice? found
  omega

end Slices

/-- Between two places in order there is a stretch of text. -/
theorem exists_slice? (first : text.IsPlace start) (second : text.IsPlace stop)
    (le : start ≤ stop) : ∃ between, text.slice? start stop = some between := by
  obtain ⟨front, back, rfl, rfl⟩ := first
  obtain ⟨front', back', same, rfl⟩ := second
  obtain ⟨between, rfl, rfl⟩ := prefix_of_append_eq same le
  exact ⟨between, slice?_eq_some_iff.mpr ⟨front, back', rfl, rfl, by simp⟩⟩

theorem slice?_self (place : text.IsPlace offset) : text.slice? offset offset = some [] := by
  obtain ⟨front, back, rfl, rfl⟩ := place
  exact slice?_eq_some_iff.mpr ⟨front, back, rfl, rfl, rfl⟩

/-- Neighbouring stretches of text make up one stretch. -/
theorem slice?_append {one two : Text} (first : text.slice? start offset = some one)
    (second : text.slice? offset stop = some two) :
    text.slice? start stop = some (one ++ two) := by
  obtain ⟨front, back, rfl, rfl, rfl⟩ := slice?_eq_some_iff.mp first
  obtain ⟨front', back', same, sized, rfl⟩ := slice?_eq_some_iff.mp second
  have le : (front ++ one).size ≤ front'.size := by simp [sized]
  have regrouped : (front ++ one) ++ back = front' ++ (two ++ back') := by simpa using same
  obtain ⟨rest, rfl, rfl⟩ := prefix_of_append_eq regrouped le
  have none : rest = [] := by
    cases rest with
    | nil => rfl
    | cons c cs =>
        have := c.utf8Size_pos
        simp only [size_append, size_cons] at sized
        omega
  subst none
  exact slice?_eq_some_iff.mpr ⟨front, back', by simp, rfl, by simp [Nat.add_assoc]⟩

/-- The whole text lies between its ends. -/
theorem slice?_zero_size (text : Text) : text.slice? 0 text.size = some text :=
  slice?_eq_some_iff.mpr ⟨[], [], by simp, rfl, by simp⟩

/-- A character that stands at a place lies between it and the next place. -/
theorem slice?_of_rest?_eq_cons {c : Char} {rest : Text}
    (found : text.rest? offset = some (c :: rest)) :
    text.slice? offset (offset + c.utf8Size) = some [c] := by
  obtain ⟨front, whole, sized⟩ := rest?_eq_some_iff.mp found
  exact slice?_eq_some_iff.mpr ⟨front, rest, by simp [whole], sized, by simp⟩

/-- Whitespace is skipped up to an offset if there is nothing else in front of it and
the text doesn't go on with whitespace there. -/
theorem skipWhitespace?_eq_some_iff :
    text.skipWhitespace? offset = some start ↔
      (∃ gap, text.slice? offset start = some gap ∧ ∀ c ∈ gap, isWhitespace c = true) ∧
        ∀ c rest, text.rest? start = some (c :: rest) → isWhitespace c = false := by
  constructor
  · intro skipped
    obtain ⟨back, found, rfl⟩ := Option.map_eq_some_iff.mp skipped
    obtain ⟨front, whole, rfl⟩ := rest?_eq_some_iff.mp found
    have parts : text = front ++ (back.takeWhile isWhitespace ++ back.dropWhile isWhitespace) := by
      rw [List.takeWhile_append_dropWhile, whole]
    refine ⟨⟨_, slice?_eq_some_iff.mpr ⟨front, _, parts, rfl, rfl⟩,
      List.all_eq_true.mp List.all_takeWhile⟩, ?_⟩
    intro c rest goesOn
    have after : text.rest? (front.size + size (back.takeWhile isWhitespace)) =
        some (back.dropWhile isWhitespace) :=
      rest?_eq_some_iff.mpr ⟨front ++ back.takeWhile isWhitespace, by simp [whole], by simp⟩
    have same : back.dropWhile isWhitespace = c :: rest := by simpa using after.symm.trans goesOn
    have stops := List.head?_dropWhile_not isWhitespace back
    rw [same] at stops
    exact stops
  · rintro ⟨⟨gap, between, whitespace⟩, stops⟩
    obtain ⟨front, back, rfl, rfl, rfl⟩ := slice?_eq_some_iff.mp between
    have after : rest? (front ++ (gap ++ back)) (front.size + gap.size) = some back :=
      rest?_eq_some_iff.mpr ⟨front ++ gap, by simp, by simp⟩
    have none : back.takeWhile isWhitespace = [] := by
      cases back with
      | nil => rfl
      | cons c rest => simp [stops c rest after]
    refine Option.map_eq_some_iff.mpr ⟨gap ++ back, rest?_eq_some_iff.mpr ⟨front, rfl, rfl⟩, ?_⟩
    rw [List.takeWhile_append_of_pos whitespace, none, List.append_nil]

/-- Whitespace can be skipped from every place; what is skipped is whitespace. -/
theorem exists_skipWhitespace? (place : text.IsPlace offset) :
    ∃ start between, text.skipWhitespace? offset = some start ∧
      text.slice? offset start = some between ∧ ∀ c ∈ between, isWhitespace c := by
  obtain ⟨rest, found⟩ := isPlace_iff.mp place
  have skipped : text.skipWhitespace? offset =
      some (offset + size (rest.takeWhile isWhitespace)) :=
    Option.map_eq_some_iff.mpr ⟨rest, found, rfl⟩
  obtain ⟨⟨gap, between, whitespace⟩, _⟩ := skipWhitespace?_eq_some_iff.mp skipped
  exact ⟨_, gap, skipped, between, whitespace⟩

/-- A token's text has as many bytes as the list of its characters. -/
@[simp] theorem utf8ByteSize_ofList (value : Text) :
    (String.ofList value).utf8ByteSize = value.size := by
  induction value with
  | nil => rfl
  | cons c cs ih =>
      have split : String.ofList (c :: cs) = String.singleton c ++ String.ofList cs := by
        rw [String.singleton_eq_ofList, ← String.ofList_append, List.singleton_append]
      rw [split, String.utf8ByteSize_append, String.utf8ByteSize_singleton, ih, size_cons]

end TextGrammar.Text
