import TextGrammar.Proofs.Outline.Marks

/-!
Outlines put together.

An outline can be given another one to fall back on, and its groups other numbers. Both
show in its marks: there is a bar between the marks of the two, and every opening has
its new number.
-/

namespace TextGrammar

variable {α β : Type}

namespace Mark

/-- The mark with another number for the group that it opens. -/
def renumber (number : Nat → Nat) : Mark α β → Mark α β
  | .opening old => .opening (number old)
  | .atom content repetition => .atom content repetition
  | .closing repetition => .closing repetition
  | .bar => .bar

theorem map_renumber_id (marks : List (Mark α β)) : marks.map (renumber fun old => old) = marks := by
  have same : renumber (fun old => old) = (id : Mark α β → Mark α β) := by
    funext mark
    cases mark <;> rfl
  rw [same, List.map_id]

theorem groups_append (front back : List (Mark α β)) :
    groups (front ++ back) = groups front + groups back :=
  List.countP_append

theorem groups_bar (marks : List (Mark α β)) : groups (.bar :: marks) = groups marks := by
  simp [groups]

theorem groups_opening (number : Nat) (marks : List (Mark α β)) :
    groups (.opening number :: marks) = groups marks + 1 := by
  simp [groups]

theorem groups_closing (repetition : β) (marks : List (Mark α β)) :
    groups (.closing repetition :: marks) = groups marks := by
  simp [groups]

theorem groups_map_renumber (number : Nat → Nat) (marks : List (Mark α β)) :
    groups (marks.map (renumber number)) = groups marks := by
  unfold groups
  rw [List.countP_map]
  congr 1
  funext mark
  cases mark <;> rfl

end Mark

namespace Outline

/-- The outline with another one to try after its own alternatives. -/
def or : Outline α β → Outline α β → Outline α β
  | .only items, other => .either items other
  | .either items alternate, other => .either items (alternate.or other)

theorem marks_or (other : Outline α β) : ∀ outline : Outline α β,
    (outline.or other).marks = outline.marks ++ .bar :: other.marks
  | .only items => by rw [or, marks, marks]
  | .either items alternate => by
      rw [or, marks, marks, marks_or other alternate, List.append_assoc, List.cons_append]

mutual

def Item.renumber (number : Nat → Nat) : Item α β → Item α β
  | .atom content repetition => .atom content repetition
  | .group old body repetition => .group (number old) (body.renumber number) repetition

def Item.renumberAll (number : Nat → Nat) : List (Item α β) → List (Item α β)
  | [] => []
  | item :: items => item.renumber number :: Item.renumberAll number items

def renumber (number : Nat → Nat) : Outline α β → Outline α β
  | .only items => .only (Item.renumberAll number items)
  | .either items alternate => .either (Item.renumberAll number items) (alternate.renumber number)

end

variable {number : Nat → Nat}

mutual

theorem Item.marks_renumber : ∀ item : Item α β,
    (item.renumber number).marks = item.marks.map (Mark.renumber number)
  | .atom content repetition => by
      rw [Item.renumber, Item.marks]
      rfl
  | .group old body repetition => by
      rw [Item.renumber, Item.marks, Item.marks, marks_renumber body, List.map_cons,
        List.map_append]
      rfl

theorem Item.marksOfAll_renumberAll : ∀ items : List (Item α β),
    Item.marksOfAll (Item.renumberAll number items) =
      (Item.marksOfAll items).map (Mark.renumber number)
  | [] => by
      rw [Item.renumberAll, Item.marksOfAll]
      rfl
  | item :: items => by
      rw [Item.renumberAll, Item.marksOfAll, Item.marksOfAll, Item.marks_renumber item,
        Item.marksOfAll_renumberAll items, List.map_append]

/-- The marks of a renumbered outline are renumbered. -/
theorem marks_renumber : ∀ outline : Outline α β,
    (outline.renumber number).marks = outline.marks.map (Mark.renumber number)
  | .only items => by
      rw [renumber, marks, marks, Item.marksOfAll_renumberAll items]
  | .either items alternate => by
      rw [renumber, marks, marks, Item.marksOfAll_renumberAll items, marks_renumber alternate,
        List.map_append, List.map_cons]
      rfl

end

end Outline

end TextGrammar
