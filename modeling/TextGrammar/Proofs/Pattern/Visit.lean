import TextGrammar.Pattern.Basic

/-!
What a visit of a sequence comes across.

The names and the group numbers of a sequence are what the kinds of its nodes
show, in the order of the visit. Here that is said by recursion on the sequence,
for anything that kinds may show.
-/

namespace TextGrammar

variable {γ : Type} (shows : Kind → Option γ)

/-- What a kind and the kinds inside it show. -/
def Kind.shown (kind : Kind) : List γ :=
  (shows kind).toList ++ kind.visit.filterMap fun node => shows node.kind

/-- What the kinds of nodes and the kinds inside them show. -/
def Node.shownAll (nodes : List Node) : List γ :=
  (Node.visitAll nodes).filterMap fun node => shows node.kind

/-- What the kinds in a sequence show. -/
def Sequence.shown (sequence : Sequence) : List γ :=
  sequence.visit.filterMap fun node => shows node.kind

theorem Sequence.groupNumbers_eq (sequence : Sequence) :
    sequence.groupNumbers = sequence.shown Kind.group? := rfl

theorem Sequence.references_eq (sequence : Sequence) :
    sequence.references = sequence.shown Kind.reference? := rfl

theorem Kind.shown_group (number : Nat) (body : Sequence) :
    (Kind.group number body).shown shows =
      (shows (.group number body)).toList ++ body.shown shows := by
  rw [Kind.shown, Kind.visit, Sequence.shown]

theorem Kind.shown_set (items : List Node) (negated : Bool) :
    (Kind.set items negated).shown shows =
      (shows (.set items negated)).toList ++ Node.shownAll shows items := by
  rw [Kind.shown, Kind.visit, Node.shownAll]

theorem Kind.shown_single (chars : CharClass) :
    (Kind.single chars).shown shows = (shows (.single chars)).toList := by
  rw [Kind.shown, Kind.visit, List.filterMap_nil, List.append_nil]

theorem Kind.shown_wordBoundary : Kind.wordBoundary.shown shows = (shows .wordBoundary).toList := by
  rw [Kind.shown, Kind.visit, List.filterMap_nil, List.append_nil]

theorem Kind.shown_reference (name : String) :
    (Kind.reference name).shown shows = (shows (.reference name)).toList := by
  rw [Kind.shown, Kind.visit, List.filterMap_nil, List.append_nil]

theorem Node.shownAll_nil : Node.shownAll shows [] = [] := by
  rw [Node.shownAll, Node.visitAll, List.filterMap_nil]

theorem Node.shownAll_cons (node : Node) (nodes : List Node) :
    Node.shownAll shows (node :: nodes) = node.kind.shown shows ++ Node.shownAll shows nodes := by
  obtain ⟨kind, quantifier⟩ := node
  rw [Node.shownAll, Node.visitAll, Node.visit, List.filterMap_append, List.filterMap_cons,
    Kind.shown, Node.shownAll, Node.kind]
  cases shows kind <;> simp

theorem Sequence.shown_only (nodes : List Node) :
    (Sequence.only nodes).shown shows = Node.shownAll shows nodes := by
  rw [Sequence.shown, Sequence.visit, Node.shownAll]

theorem Sequence.shown_either (nodes : List Node) (alternate : Sequence) :
    (Sequence.either nodes alternate).shown shows =
      Node.shownAll shows nodes ++ alternate.shown shows := by
  rw [Sequence.shown, Sequence.visit, List.filterMap_append, Node.shownAll, Sequence.shown]

end TextGrammar
