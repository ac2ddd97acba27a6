import TextGrammar.Pattern.Basic

/-!
Outlines: alternatives, groups and repetitions, before anything is known of what
they are made of.

Patterns and grammar expressions are written alike. A scanner turns either into
a list of marks in which every opening has its closing; `Outline.ofMarks` nests
the marks, and `Outline.settle` turns the outline into a sequence once its atoms
and repetitions have been given a meaning.
-/

namespace TextGrammar

/-- What a scanner reads: atoms of type `α`, repetitions of type `β`, and the
signs that structure them. A repetition belongs to the atom or group before it. -/
inductive Mark (α β : Type) where
  | atom (content : α) (repetition : β)
  /-- The start of the group with this number. -/
  | opening (number : Nat)
  | closing (repetition : β)
  | bar
deriving DecidableEq, Repr

mutual

/-- A part of an outline. -/
inductive Outline.Item (α β : Type) where
  | atom (content : α) (repetition : β)
  | group (number : Nat) (body : Outline α β) (repetition : β)

/-- Items one after another, alone or with alternatives. -/
inductive Outline (α β : Type) where
  | only (items : List (Outline.Item α β))
  | either (items : List (Outline.Item α β)) (alternate : Outline α β)

end

namespace Outline

variable {α β : Type}

/-- The outline with one more item in front of its first alternative. -/
def cons (item : Item α β) : Outline α β → Outline α β
  | .only items => .only (item :: items)
  | .either items alternate => .either (item :: items) alternate

/-- The outline of the marks up to the closing that belongs to no opening among
them, if there is one; then, from the innermost group outwards, the repetition
of each group that is open at the start and the outline of what follows it. An
opening that is never closed is passed over. -/
def nest : List (Mark α β) → Outline α β × List (β × Outline α β)
  | [] => (.only [], [])
  | .atom content repetition :: marks =>
      let (outline, outer) := nest marks
      (outline.cons (.atom content repetition), outer)
  | .bar :: marks =>
      let (outline, outer) := nest marks
      (.either [] outline, outer)
  | .closing repetition :: marks =>
      let (outline, outer) := nest marks
      (.only [], (repetition, outline) :: outer)
  | .opening number :: marks =>
      match nest marks with
      | (body, (repetition, outline) :: outer) =>
          (outline.cons (.group number body repetition), outer)
      | (outline, []) => (outline, [])

/-- The outline of balanced marks. -/
def ofMarks (marks : List (Mark α β)) : Outline α β :=
  (nest marks).1

section Settle

variable {m : Type → Type} [Monad m] (kind : α → m Kind) (quantifier : β → m (Option Quantifier))

mutual

/-- The node of an item: its repetition is looked at first, then its content. -/
def settleItem : Item α β → m Node
  | .atom content repetition => do
      let quantifier ← quantifier repetition
      let kind ← kind content
      return .quantified kind quantifier
  | .group number body repetition => do
      let quantifier ← quantifier repetition
      let body ← settle body
      return .quantified (.group number body) quantifier

def settleItems : List (Item α β) → m (List Node)
  | [] => return []
  | item :: items => do
      let node ← settleItem item
      let nodes ← settleItems items
      return node :: nodes

/-- The sequence of an outline, with a kind for every atom and a quantifier for
every repetition, from left to right. -/
def settle : Outline α β → m Sequence
  | .only items => return .only (← settleItems items)
  | .either items alternate => do
      let nodes ← settleItems items
      let alternate ← settle alternate
      return .either nodes alternate

end

end Settle

end Outline

/-- Number of groups that the marks open. -/
def Mark.groups {α β : Type} (marks : List (Mark α β)) : Nat :=
  marks.countP fun
    | .opening _ => true
    | _ => false

end TextGrammar
