import TextGrammar.Outline

/-!
Outlines and the marks that they are nested from.

`Outline.marks` writes an outline out again. Nesting is undone by it in both
directions: an outline is what its own marks nest to (`ofMarks_marks`), and marks
in which everything opened is closed are the marks of their outline
(`marks_ofMarks`). The second needs the condition, as nesting passes over an
opening that is never closed.
-/

namespace TextGrammar

variable {α β : Type}

namespace Outline

mutual

/-- The marks of an item, in the order in which they are read. -/
def Item.marks : Item α β → List (Mark α β)
  | .atom content repetition => [.atom content repetition]
  | .group number body repetition => .opening number :: (body.marks ++ [.closing repetition])

def Item.marksOfAll : List (Item α β) → List (Mark α β)
  | [] => []
  | item :: items => item.marks ++ Item.marksOfAll items

def marks : Outline α β → List (Mark α β)
  | .only items => Item.marksOfAll items
  | .either items alternate => Item.marksOfAll items ++ .bar :: alternate.marks

end

@[simp] theorem marks_cons (item : Item α β) (outline : Outline α β) :
    (outline.cons item).marks = item.marks ++ outline.marks := by
  cases outline <;> simp [cons, marks, Item.marksOfAll]

theorem foldr_cons_only (items more : List (Item α β)) :
    items.foldr cons (.only more) = .only (items ++ more) := by
  induction items with
  | nil => rfl
  | cons item items ih => rw [List.foldr_cons, ih, cons, List.cons_append]

theorem foldr_cons_either (items more : List (Item α β)) (alternate : Outline α β) :
    items.foldr cons (.either more alternate) = .either (items ++ more) alternate := by
  induction items with
  | nil => rfl
  | cons item items ih => rw [List.foldr_cons, ih, cons, List.cons_append]

/-! ### Nesting what was written out -/

mutual

theorem Item.nest_marks : ∀ (item : Item α β) (rest : List (Mark α β)),
    nest (item.marks ++ rest) = ((nest rest).1.cons item, (nest rest).2)
  | .atom content repetition, rest => by
      rw [Item.marks, List.singleton_append, nest]
  | .group number body repetition, rest => by
      have inside := nest_marks body (.closing repetition :: rest) (by rw [nest])
      rw [nest] at inside
      rw [Item.marks, List.cons_append, List.append_assoc, List.singleton_append, nest, inside]

theorem Item.nest_marksOfAll : ∀ (items : List (Item α β)) (rest : List (Mark α β)),
    nest (Item.marksOfAll items ++ rest) = (items.foldr cons (nest rest).1, (nest rest).2)
  | [], rest => rfl
  | item :: items, rest => by
      rw [Item.marksOfAll, List.append_assoc, Item.nest_marks item,
        Item.nest_marksOfAll items, List.foldr_cons]

/-- What is read after an outline starts outside of it. -/
theorem nest_marks : ∀ (outline : Outline α β) (rest : List (Mark α β)),
    (nest rest).1 = .only [] → nest (outline.marks ++ rest) = (outline, (nest rest).2)
  | .only items, rest, ends => by
      rw [marks, Item.nest_marksOfAll items, ends, foldr_cons_only, List.append_nil]
  | .either items alternate, rest, ends => by
      rw [marks, List.append_assoc, List.cons_append, Item.nest_marksOfAll items, nest,
        nest_marks alternate rest ends, foldr_cons_either, List.append_nil]

end

theorem ofMarks_marks (outline : Outline α β) : ofMarks outline.marks = outline := by
  have nested := nest_marks outline [] rfl
  rw [List.append_nil] at nested
  rw [ofMarks, nested]

end Outline

/-! ### Writing out what was nested -/

namespace Mark

/-- The marks close as many groups as are open in front of them, and every group
that they open. -/
def Closes : (depth : Nat) → List (Mark α β) → Prop
  | depth, [] => depth = 0
  | depth, .atom _ _ :: marks => Closes depth marks
  | depth, .bar :: marks => Closes depth marks
  | depth, .opening _ :: marks => Closes (depth + 1) marks
  | 0, .closing _ :: _ => False
  | depth + 1, .closing _ :: marks => Closes depth marks

/-- The numbers of the groups that are opened, in order. -/
def numbers (marks : List (Mark α β)) : List Nat :=
  marks.filterMap fun
    | .opening number => some number
    | _ => none

@[simp] theorem numbers_append (front back : List (Mark α β)) :
    numbers (front ++ back) = numbers front ++ numbers back :=
  List.filterMap_append

theorem length_numbers (marks : List (Mark α β)) : (numbers marks).length = groups marks := by
  induction marks with
  | nil => rfl
  | cons mark marks ih =>
      unfold numbers groups at ih ⊢
      cases mark <;> simp [ih]

end Mark

namespace Outline

/-- Marks are made of the outline they start with and, for every group that is
open in front of them, its closing and the outline after that. -/
theorem marks_of_closes {depth : Nat} {marks : List (Mark α β)} (closes : Mark.Closes depth marks) :
    (nest marks).2.length = depth ∧
      marks = (nest marks).1.marks ++
        (nest marks).2.flatMap fun (repetition, outline) =>
          .closing repetition :: outline.marks := by
  -- The depth varies: behind an opening one more group is open than in front of it.
  induction marks generalizing depth with
  | nil =>
      obtain rfl : depth = 0 := closes
      exact ⟨rfl, rfl⟩
  | cons mark marks ih =>
      cases mark with
      | atom content repetition =>
          obtain ⟨length, written⟩ := ih (show Mark.Closes depth marks from closes)
          refine ⟨length, ?_⟩
          rw [nest, marks_cons, Item.marks, List.append_assoc, ← written, List.singleton_append]
      | bar =>
          obtain ⟨length, written⟩ := ih (show Mark.Closes depth marks from closes)
          refine ⟨length, ?_⟩
          rw [nest, Outline.marks, Item.marksOfAll, List.nil_append, List.cons_append, ← written]
      | opening number =>
          obtain ⟨length, written⟩ := ih (show Mark.Closes (depth + 1) marks from closes)
          match nested : nest marks with
          | (body, (repetition, outline) :: outer) =>
              -- The innermost group that is open behind the opening is its own.
              simp only [nested, List.length_cons, Nat.add_right_cancel_iff] at length
              simp only [nested, List.flatMap_cons] at written
              rw [nest, nested]
              refine ⟨length, ?_⟩
              rw [marks_cons, Item.marks, written]
              simp only [List.cons_append, List.append_assoc, List.nil_append]
          | (body, []) =>
              simp [nested] at length
      | closing repetition =>
          cases depth with
          | zero => exact closes.elim
          | succ depth =>
              obtain ⟨length, written⟩ := ih (show Mark.Closes depth marks from closes)
              rw [nest]
              refine ⟨by rw [List.length_cons, length], ?_⟩
              rw [Outline.marks, Item.marksOfAll, List.nil_append, List.flatMap_cons,
                List.cons_append, ← written]

theorem marks_ofMarks {marks : List (Mark α β)} (closes : Mark.Closes 0 marks) :
    (ofMarks marks).marks = marks := by
  obtain ⟨none, written⟩ := marks_of_closes closes
  rw [List.length_eq_zero_iff.mp none, List.flatMap_nil, List.append_nil] at written
  exact written.symm

end Outline

end TextGrammar
