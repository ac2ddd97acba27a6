/-!
Text and byte offsets.

Text is a list of characters, and a place in it is named by the number of bytes
that the characters in front of it take in UTF-8. Not every number names a
place: one past the end, or inside a character of several bytes, does not. So
every way to look at a text from an offset (`rest?`, `split?`, `slice?`) answers
`none` there, and `split?_eq_some_iff` says exactly which offsets are places.
-/

namespace TextGrammar

/-- Text as the list of its characters. -/
abbrev Text := List Char

/-- Something found in a text, with the offset where it was found. -/
structure Located (α : Type) where
  content : α
  offset : Nat
deriving DecidableEq, Repr

namespace Text

/-- Number of bytes of the text in UTF-8. -/
def size : Text → Nat
  | [] => 0
  | c :: cs => c.utf8Size + size cs

/-- The text from an offset on. -/
def rest? : Text → Nat → Option Text
  | text, 0 => some text
  | [], _ + 1 => none
  | c :: cs, n + 1 => if c.utf8Size ≤ n + 1 then rest? cs (n + 1 - c.utf8Size) else none

/-- The text in front of an offset and the text from it on. -/
def split? : Text → Nat → Option (Text × Text)
  | text, 0 => some ([], text)
  | [], _ + 1 => none
  | c :: cs, n + 1 =>
      if c.utf8Size ≤ n + 1 then
        (split? cs (n + 1 - c.utf8Size)).map fun parts => (c :: parts.1, parts.2)
      else none

/-- The text between two offsets. -/
def slice? (text : Text) (start stop : Nat) : Option Text :=
  if start ≤ stop then
    (text.rest? start).bind fun rest => (rest.split? (stop - start)).map Prod.fst
  else none

@[simp] theorem size_nil : size [] = 0 := rfl

@[simp] theorem size_cons (c : Char) (cs : Text) : size (c :: cs) = c.utf8Size + size cs := rfl

@[simp] theorem size_append (front back : Text) :
    size (front ++ back) = size front + size back := by
  induction front with
  | nil => simp
  | cons c cs ih => simp [ih, Nat.add_assoc]

/-- Splitting at an offset takes the text apart into a front of that many bytes
and the rest, and finds every such front. -/
theorem split?_eq_some_iff {text front back : Text} {offset : Nat} :
    text.split? offset = some (front, back) ↔ text = front ++ back ∧ front.size = offset := by
  fun_induction split? text offset generalizing front with
  | case1 text =>
      constructor
      · rintro ⟨⟩
        exact ⟨rfl, rfl⟩
      · rintro ⟨rfl, empty⟩
        cases front with
        | nil => rfl
        | cons c cs =>
            have := c.utf8Size_pos
            simp only [size_cons] at empty
            omega
  | case2 n => cases front <;> simp
  | case3 c cs n fits ih =>
      constructor
      · intro found
        obtain ⟨⟨front', back'⟩, split, same⟩ := Option.map_eq_some_iff.mp found
        obtain ⟨rfl, rfl⟩ := Prod.mk.inj same
        obtain ⟨rfl, sized⟩ := ih.mp split
        exact ⟨rfl, by simp only [size_cons]; omega⟩
      · rintro ⟨whole, sized⟩
        cases front with
        | nil => simp at sized
        | cons d front' =>
            obtain ⟨rfl, rfl⟩ := List.cons.inj whole
            simp only [size_cons] at sized
            exact Option.map_eq_some_iff.mpr ⟨(front', back), ih.mpr ⟨rfl, by omega⟩, rfl⟩
  | case4 c cs n small =>
      refine ⟨by simp, fun ⟨whole, sized⟩ => ?_⟩
      cases front with
      | nil => simp at sized
      | cons d front' =>
          obtain ⟨rfl, rfl⟩ := List.cons.inj whole
          simp only [size_cons] at sized
          omega

/-- The rest of a text is what splitting leaves after the front. -/
theorem rest?_eq_map_split? (text : Text) (offset : Nat) :
    text.rest? offset = (text.split? offset).map Prod.snd := by
  fun_induction rest? text offset with
  | case1 text => simp [split?]
  | case2 n => simp [split?]
  | case3 c cs n fits ih => simp [split?, fits, ih, Function.comp_def]
  | case4 c cs n small => simp [split?, small]

theorem rest?_eq_some_iff {text back : Text} {offset : Nat} :
    text.rest? offset = some back ↔ ∃ front : Text, text = front ++ back ∧ front.size = offset := by
  rw [rest?_eq_map_split?, Option.map_eq_some_iff]
  constructor
  · rintro ⟨⟨front, _⟩, split, rfl⟩
    exact ⟨front, split?_eq_some_iff.mp split⟩
  · rintro ⟨front, split⟩
    exact ⟨(front, back), split?_eq_some_iff.mpr split, rfl⟩

/-- A text from an offset on ends as many bytes later as it has. -/
theorem size_of_rest?_eq_some {text back : Text} {offset : Nat}
    (found : text.rest? offset = some back) : offset + back.size = text.size := by
  obtain ⟨front, rfl, rfl⟩ := rest?_eq_some_iff.mp found
  simp

end Text

end TextGrammar
