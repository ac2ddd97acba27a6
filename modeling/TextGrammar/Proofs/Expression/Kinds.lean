import TextGrammar.Expression.Compile
import TextGrammar.Proofs.Checked
import TextGrammar.Proofs.Walk.Repetition

/-!
The nodes in compiled expressions.

An expression is made of references, groups, and sets of references. It has no
node that tests a character by itself, and no repetition that has to match more often
than it may (`Expression.nodes_of_compile_eq_ok`).
-/

namespace TextGrammar

/-- A kind that expressions are made of. -/
def Kind.IsReferential : Kind → Prop
  | .group _ _ => True
  | .set _ _ => True
  | .reference _ => True
  | .single _ => False
  | .wordBoundary => False

namespace Outline

variable {α β ε : Type} {kind : α → Except ε Kind} {quantifier : β → Except ε (Option Quantifier)}
  {p : Node → Prop}

/-- A node with a quantifier has the kind that it was given. -/
theorem visit_quantified (kind : Kind) (quantifier : Option Quantifier) :
    (Node.quantified kind quantifier).visit =
      Node.quantified kind quantifier :: kind.visit := by
  rw [Node.quantified, Node.visit]

/-- Groups have the property, and so has every node that an atom may be settled to,
with all that is inside it. -/
structure Spread (p : Node → Prop) (kind : α → Except ε Kind)
    (quantifier : β → Except ε (Option Quantifier)) : Prop where
  group : ∀ number body repetition bounds, quantifier repetition = .ok bounds →
    p (.quantified (.group number body) bounds)
  atom : ∀ content repetition found bounds, kind content = .ok found →
    quantifier repetition = .ok bounds →
    p (.quantified found bounds) ∧ ∀ node ∈ found.visit, p node

mutual

theorem nodes_of_settleItem (spread : Spread p kind quantifier) :
    ∀ (item : Item α β) (node : Node),
    settleItem kind quantifier item = .ok node → ∀ inner ∈ node.visit, p inner
  | .atom content repetition, node, settled, inner, mem => by
      rw [settleItem] at settled
      obtain ⟨bounds, ofRepetition, more⟩ := bind_eq_ok_iff.mp settled
      obtain ⟨kind, ofContent, same⟩ := bind_eq_ok_iff.mp more
      cases same
      obtain ⟨atom, below⟩ := spread.atom content repetition kind bounds ofContent ofRepetition
      rw [visit_quantified] at mem
      rcases List.mem_cons.mp mem with rfl | deeper
      · exact atom
      · exact below inner deeper
  | .group number body repetition, node, settled, inner, mem => by
      rw [settleItem] at settled
      obtain ⟨bounds, ofRepetition, more⟩ := bind_eq_ok_iff.mp settled
      obtain ⟨sequence, ofBody, same⟩ := bind_eq_ok_iff.mp more
      cases same
      rw [visit_quantified] at mem
      rcases List.mem_cons.mp mem with rfl | deeper
      · exact spread.group number sequence repetition bounds ofRepetition
      · exact nodes_of_settle spread body sequence ofBody inner
          (by simpa only [Kind.visit] using deeper)

theorem nodes_of_settleItems (spread : Spread p kind quantifier) :
    ∀ (items : List (Item α β)) (nodes : List Node),
    settleItems kind quantifier items = .ok nodes →
      ∀ inner ∈ Node.visitAll nodes, p inner
  | [], nodes, settled, inner, mem => by
      rw [settleItems] at settled
      cases settled
      simp [Node.visitAll] at mem
  | item :: items, nodes, settled, inner, mem => by
      rw [settleItems] at settled
      obtain ⟨node, ofItem, more⟩ := bind_eq_ok_iff.mp settled
      obtain ⟨rest, ofItems, same⟩ := bind_eq_ok_iff.mp more
      cases same
      rw [Node.visitAll] at mem
      rcases List.mem_append.mp mem with first | later
      · exact nodes_of_settleItem spread item node ofItem inner first
      · exact nodes_of_settleItems spread items rest ofItems inner later

/-- What holds of groups and of the nodes of atoms holds of every node in the sequence
that an outline is settled to. -/
theorem nodes_of_settle (spread : Spread p kind quantifier) :
    ∀ (outline : Outline α β) (sequence : Sequence),
    settle kind quantifier outline = .ok sequence → ∀ inner ∈ sequence.visit, p inner
  | .only items, sequence, settled, inner, mem => by
      rw [settle] at settled
      obtain ⟨nodes, ofItems, same⟩ := bind_eq_ok_iff.mp settled
      cases same
      exact nodes_of_settleItems spread items nodes ofItems inner
        (by simpa only [Sequence.visit] using mem)
  | .either items alternate, sequence, settled, inner, mem => by
      rw [settle] at settled
      obtain ⟨nodes, ofItems, more⟩ := bind_eq_ok_iff.mp settled
      obtain ⟨rest, ofAlternate, same⟩ := bind_eq_ok_iff.mp more
      cases same
      rw [Sequence.visit] at mem
      rcases List.mem_append.mp mem with first | later
      · exact nodes_of_settleItems spread items nodes ofItems inner first
      · exact nodes_of_settle spread alternate rest ofAlternate inner later

end

end Outline

namespace Expression

/-- The items of a set are references, each of them once. -/
theorem nodes_of_items {tokens : Tokens} {nodes : List Node} (settled : items tokens = .ok nodes) :
    ∀ inner ∈ Node.visitAll nodes, ∃ name, inner = .one (.reference name) := by
  induction tokens generalizing nodes with
  | nil =>
      cases settled
      simp [Node.visitAll]
  | cons token tokens ih =>
      rw [items] at settled
      obtain ⟨name, _, more⟩ := bind_eq_ok_iff.mp settled
      obtain ⟨rest, ofRest, same⟩ := bind_eq_ok_iff.mp more
      cases same
      intro inner mem
      simp only [Node.visitAll, Node.one, Node.visit, Kind.visit, List.cons_append,
        List.nil_append, List.mem_cons] at mem
      rcases mem with rfl | later
      · exact ⟨name, rfl⟩
      · exact ih ofRest inner later

/-- An atom is a reference or a set, in which there are references only. -/
theorem nodes_of_atom {atom : Atom} {kind : Kind} (settled : atom.kind = .ok kind) :
    kind.IsReferential ∧ ∀ node ∈ kind.visit, ∃ name, node = .one (.reference name) := by
  have set : ∀ {tokens : Tokens} {negated : Bool} {found : Kind},
      (do return Kind.set (← items tokens) negated) = Except.ok found →
        found.IsReferential ∧ ∀ node ∈ found.visit, ∃ name, node = .one (.reference name) := by
    intro tokens negated found settled
    obtain ⟨nodes, ofTokens, same⟩ := bind_eq_ok_iff.mp settled
    cases same
    exact ⟨trivial, by simpa only [Kind.visit] using nodes_of_items ofTokens⟩
  unfold Atom.kind at settled
  split at settled
  · obtain ⟨found, _, same⟩ := bind_eq_ok_iff.mp settled
    cases same
    exact ⟨trivial, by simp [Kind.visit]⟩
  · split at settled
    · exact set settled
    · exact set settled
  · cases settled
    exact ⟨trivial, by simp [Kind.visit, Node.visitAll]⟩

/-- The bounds of a repetition are in order. -/
theorem ordered_of_quantifier {repetition : Repetition} {bounds : Quantifier}
    (settled : repetition.quantifier = .ok bounds) : bounds.Ordered := by
  unfold Repetition.quantifier at settled
  split at settled
  · cases settled
    exact nofun
  · cases settled
    exact nofun
  · cases settled
    rintro max ⟨⟩
    exact Nat.zero_le 1
  · obtain ⟨count, _, same⟩ := bind_eq_ok_iff.mp settled
    cases same
    rintro max ⟨⟩
    exact Nat.le_refl _
  · obtain ⟨least, _, same⟩ := bind_eq_ok_iff.mp settled
    cases same
    exact nofun
  · obtain ⟨least, _, more⟩ := bind_eq_ok_iff.mp settled
    obtain ⟨most, _, same⟩ := bind_eq_ok_iff.mp more
    unfold Quantifier.between? at same
    split at same
    · rename_i between
      split at between
      · rename_i le
        cases between
        cases same
        rintro max ⟨⟩
        exact le
      · cases between
    · cases same
  · cases settled

theorem ordered_of_quantifier? {repetition : Option Repetition} {quantifier : Option Quantifier}
    (settled : quantifier? repetition = .ok quantifier) (kind : Kind) :
    (Node.quantified kind quantifier).bounds.Ordered := by
  have once : Quantifier.once.Ordered := by
    rintro max ⟨⟩
    exact Nat.le_refl 1
  cases repetition with
  | none =>
      cases settled
      exact once
  | some repetition =>
      obtain ⟨bounds, ofRepetition, same⟩ := bind_eq_ok_iff.mp settled
      cases same
      unfold Node.bounds Node.quantified Node.quantifier
      by_cases isOnce : bounds.isOnce = true
      · simpa [Option.filter, isOnce] using once
      · simpa [Option.filter, isOnce] using ordered_of_quantifier ofRepetition

/-- A compiled expression is made of references, groups and sets, and the bounds of
its repetitions are in order. -/
theorem nodes_of_compile_eq_ok {source : String} {expression : Expression}
    (compiled : compile source = .ok expression) :
    ∀ node ∈ expression.root.visit, node.kind.IsReferential ∧ node.bounds.Ordered := by
  obtain ⟨tokens, _, marked⟩ := bind_eq_ok_iff.mp (mapError_eq_ok_iff.mp compiled)
  obtain ⟨marks, _, settled⟩ := bind_eq_ok_iff.mp marked
  obtain ⟨root, ofMarks, same⟩ := bind_eq_ok_iff.mp settled
  cases same
  refine Outline.nodes_of_settle ⟨?_, ?_⟩ _ _ ofMarks
  · exact fun _ _ _ _ ofRepetition => ⟨trivial, ordered_of_quantifier? ofRepetition _⟩
  · intro content repetition found bounds ofContent ofRepetition
    obtain ⟨referential, inside⟩ := nodes_of_atom ofContent
    refine ⟨⟨referential, ordered_of_quantifier? ofRepetition _⟩, ?_⟩
    intro node mem
    obtain ⟨name, rfl⟩ := inside node mem
    refine ⟨trivial, ?_⟩
    rintro max ⟨⟩
    exact Nat.le_refl 1

end Expression

end TextGrammar
