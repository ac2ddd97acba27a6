import TextGrammar.Proofs.Pattern.Printing

/-!
Printing patterns and reading them back.

A well-formed sequence is read from its glyphs as the marks of its outline
(`readMarks_printSequence`), in front of anything that does not repeat its last
node, and the outline stands for the sequence (`sequenceOf_outlineOf`). Together
with what is known of every compiled pattern this says which sequences patterns
have (`isPattern_iff_compile_print`).
-/

namespace TextGrammar.Pattern

mutual

/-- The item that a node with this kind and quantifier is read as. -/
def itemOf (quantifier : Option Quantifier) : Kind → Outline.Item Kind (Option Quantifier)
  | .group number body => .group number (outlineOf body) quantifier
  | .set items negated => .atom (.set items negated) quantifier
  | .single chars => .atom (.single chars) quantifier
  | .wordBoundary => .atom .wordBoundary quantifier
  | .reference name => .atom (.reference name) quantifier

def itemsOf : List Node → List (Outline.Item Kind (Option Quantifier))
  | [] => []
  | ⟨kind, quantifier⟩ :: nodes => itemOf quantifier kind :: itemsOf nodes

def outlineOf : Sequence → Outline Kind (Option Quantifier)
  | .only nodes => .only (itemsOf nodes)
  | .either nodes alternate => .either (itemsOf nodes) (outlineOf alternate)

end

/-- A quantifier that is worth storing is stored. -/
theorem quantified_of_stored {kind : Kind} {quantifier : Option Quantifier}
    (stored : ∀ q, quantifier = some q → q ≠ ⟨1, some 1⟩ ∧ q.InBounds) :
    Node.quantified kind quantifier = ⟨kind, quantifier⟩ := by
  cases quantifier with
  | none => rfl
  | some q =>
      have often : q.isOnce = false := decide_eq_false (stored q rfl).1
      simp [Node.quantified, Option.filter, often]

mutual

/-- The item of a well-formed kind stands for that kind. -/
theorem nodeOf_itemOf (quantifier : Option Quantifier) : ∀ kind : Kind,
    (Node.mk kind quantifier).WellFormed → nodeOf (itemOf quantifier kind) = ⟨kind, quantifier⟩
  | .group number body, wellFormed => by
      rw [Node.WellFormed, Kind.WellFormed] at wellFormed
      rw [itemOf, nodeOf_group, sequenceOf_outlineOf body wellFormed.1,
        quantified_of_stored wellFormed.2]
  | .set _ _, wellFormed | .single _, wellFormed | .wordBoundary, wellFormed
  | .reference _, wellFormed => by
      rw [Node.WellFormed] at wellFormed
      rw [itemOf, nodeOf_atom, quantified_of_stored wellFormed.2]

/-- The items of well-formed nodes stand for those nodes. -/
theorem nodesOf_itemsOf : ∀ nodes : List Node,
    Node.AllWellFormed nodes → nodesOf (itemsOf nodes) = nodes
  | [], _ => by rw [itemsOf, nodesOf_nil]
  | ⟨kind, quantifier⟩ :: nodes, wellFormed => by
      rw [Node.AllWellFormed] at wellFormed
      rw [itemsOf, nodesOf_cons, nodeOf_itemOf quantifier kind wellFormed.1,
        nodesOf_itemsOf nodes wellFormed.2]

/-- The outline of a sequence stands for the sequence. -/
theorem sequenceOf_outlineOf : ∀ sequence : Sequence,
    sequence.WellFormed → sequenceOf (outlineOf sequence) = sequence
  | .only nodes, wellFormed => by
      rw [Sequence.WellFormed] at wellFormed
      rw [outlineOf, sequenceOf_only, nodesOf_itemsOf nodes wellFormed]
  | .either nodes alternate, wellFormed => by
      rw [Sequence.WellFormed] at wellFormed
      rw [outlineOf, sequenceOf_either, nodesOf_itemsOf nodes wellFormed.1,
        sequenceOf_outlineOf alternate wellFormed.2]

end

/-- Numbers that count on from how many groups have been opened. -/
def Numbered (groups : Nat) (numbers : List Nat) : Prop :=
  numbers = List.range' (groups + 1) numbers.length

/-- Numbers go up by one, so the first is known and the others follow it. -/
theorem numbered_cons {groups number : Nat} {numbers : List Nat} :
    Numbered groups (number :: numbers) ↔ number = groups + 1 ∧ Numbered (groups + 1) numbers := by
  simp [Numbered, List.range'_succ]

/-- Numbers are in order if those in front are, and the others go on from them. -/
theorem numbered_append {groups : Nat} {front back : List Nat} :
    Numbered groups (front ++ back) ↔
      Numbered groups front ∧ Numbered (groups + front.length) back := by
  unfold Numbered
  rw [List.length_append, ← List.range'_append_1, Nat.add_right_comm]
  constructor
  · intro same
    exact List.append_inj same (by simp)
  · rintro ⟨first, second⟩
    rw [← first, ← second]

/-- Only the first glyph tells whether characters are avoided. -/
theorem avoids_cons {chars : List Char} {glyph : Glyph} {offset : Nat} {rest : Glyphs} :
    Avoids chars (⟨glyph, offset⟩ :: rest) ↔ ∀ c ∈ chars, glyph ≠ .plain c := by
  simp [Avoids]

/-- No class is shown as a sign, or as what opens or separates. -/
theorem classGlyph_ne_sign (chars : CharClass) :
    ∀ c ∈ signs ++ ['(', ')', '[', '|'], classGlyph reserved chars ≠ .plain c := by
  have special : ∀ c ∈ signs ++ ['(', ')', '[', '|'], c ∈ reserved ∧ c ≠ '.' := by
    simp [signs, reserved]
  intro c mem
  exact classGlyph_ne_plain (special c mem).1 (special c mem).2

/-- No node is written with a sign of repetition at its start. -/
theorem avoids_printKind {kind : Kind} (wellFormed : kind.WellFormed) (offset : Nat)
    (rest : List Glyph) (more : Glyphs) :
    Avoids signs (place offset (printKind kind ++ rest) ++ more) := by
  cases kind with
  | group number body => simp [printKind, avoids_cons, signs]
  | set items negated => simp [printKind, avoids_cons, signs]
  | single chars =>
      simp only [printKind, place_cons, List.cons_append, avoids_cons]
      exact fun c mem => classGlyph_ne_sign chars c (List.mem_append_left _ mem)
  | wordBoundary => simp [printKind, avoids_cons, signs]
  | reference name => simp [Kind.WellFormed] at wellFormed

/-- No node is shown with a sign in front, so what is before it is not repeated by it. -/
theorem avoids_printNodes {nodes : List Node} (wellFormed : Node.AllWellFormed nodes)
    (offset : Nat) {rest : Glyphs} (avoids : Avoids signs rest) :
    Avoids signs (place offset (printNodes nodes) ++ rest) := by
  match nodes, wellFormed with
  | [], _ => simpa [printNodes] using avoids
  | ⟨kind, quantifier⟩ :: nodes, wellFormed =>
      rw [Node.AllWellFormed, Node.WellFormed] at wellFormed
      rw [printNodes, printNode, List.append_assoc]
      exact avoids_printKind wellFormed.1.1 offset _ rest

/-- Nodes that may stand in a set are single classes that may. -/
theorem exists_classes {items : List Node} (all : ∀ item ∈ items, item.IsItem) :
    (∀ chars ∈ items.map itemClass, chars.IsItem) ∧
      (items.map itemClass).map (fun chars => (⟨.single chars, none⟩ : Node)) = items := by
  induction items with
  | nil => simp
  | cons item items ih =>
      obtain ⟨⟨chars, isItem, rfl⟩, more⟩ := List.forall_mem_cons.mp all
      obtain ⟨classes, same⟩ := ih more
      refine ⟨List.forall_mem_cons.mpr ⟨isItem, classes⟩, ?_⟩
      rw [List.map_cons, List.map_cons, same]
      rfl

section Marks

variable {opened : List Nat} {groups : Nat} {rest left : Glyphs}
  {quantifier : Option Quantifier} {marks : List (Mark Kind (Option Quantifier))}

/-- An opening bracket starts a group with the next number. -/
theorem readMarks_opening (offset : Nat)
    (read : readMarks (offset :: opened) (groups + 1) rest = .ok marks) :
    readMarks opened groups (⟨.plain '(', offset⟩ :: rest) = .ok (.opening (groups + 1) :: marks) :=
  readMarks_of_reads (.opening (show script.opens ⟨.plain '(', offset⟩ offset from rfl)) read

/-- A closing bracket ends the innermost group, with what repeats it. -/
theorem readMarks_closing (outer offset : Nat)
    (repeats : readQuantifier rest = .ok (quantifier, left))
    (read : readMarks opened groups left = .ok marks) :
    readMarks (outer :: opened) groups (⟨.plain ')', offset⟩ :: rest) =
      .ok (.closing quantifier :: marks) :=
  readMarks_of_reads (.closing (show script.closes ⟨.plain ')', offset⟩ from rfl) repeats) read

/-- A bar is a mark of its own. -/
theorem readMarks_bar (offset : Nat) (read : readMarks opened groups rest = .ok marks) :
    readMarks opened groups (⟨.plain '|', offset⟩ :: rest) = .ok (.bar :: marks) :=
  readMarks_of_reads (.bar (show script.bars ⟨.plain '|', offset⟩ from rfl)) read

end Marks

/-- An atom is read as it was printed, with its quantifier. -/
theorem readMarks_printAtom {opened : List Nat} {groups offset : Nat} {kind : Kind}
    {quantifier : Option Quantifier} {rest : Glyphs} {marks : List (Mark Kind (Option Quantifier))}
    (atom : IsAtom kind) (inBounds : ∀ q, quantifier = some q → q.InBounds)
    (avoids : Avoids signs rest) (read : readMarks opened groups rest = .ok marks) :
    readMarks opened groups (place offset (printKind kind ++ printQuantifier? quantifier) ++ rest) =
      .ok (.atom kind quantifier :: marks) := by
  obtain ⟨wellFormed, alone⟩ := atom
  have repeats := fun next => readQuantifier_print? inBounds next avoids
  cases kind with
  | group number body => simp [Kind.group?] at alone
  | set items negated =>
      rw [Kind.WellFormed] at wellFormed
      obtain ⟨classes, same⟩ := exists_classes wellFormed
      have one := fun next => readAtom_printSet classes negated offset next
      rw [same] at one
      rw [printKind, List.cons_append, place_cons, place_append, List.cons_append,
        List.append_assoc]
      exact readMarks_of_reads (.atom ⟨by simp, one _ _⟩ (repeats _)) read
  | single chars =>
      rw [Kind.WellFormed] at wellFormed
      have unlike := classGlyph_ne_sign chars
      have one : ∀ left, readAtom ⟨classGlyph reserved chars, offset⟩ left =
          .ok (.single chars, left) := by
        intro left
        rw [readAtom, if_neg (unlike '[' (by decide)), kind?_classGlyph wellFormed]
      rw [printKind, List.singleton_append, place_cons, List.cons_append]
      exact readMarks_of_reads (.atom ⟨by simp [unlike], one _⟩ (repeats _)) read
  | wordBoundary =>
      rw [printKind, List.singleton_append, place_cons, List.cons_append]
      exact readMarks_of_reads (.atom ⟨by simp, rfl⟩ (repeats _)) read
  | reference name => simp [Kind.WellFormed] at wellFormed

mutual

/-- What a kind is shown as is read as the marks of its item. -/
theorem readMarks_printKind : ∀ (kind : Kind) (offset : Nat) {opened : List Nat} {groups : Nat}
    {quantifier : Option Quantifier} {rest : Glyphs}
    {marks : List (Mark Kind (Option Quantifier))},
    (Node.mk kind quantifier).WellFormed → Numbered groups (kind.shown Kind.group?) →
      Avoids signs rest →
        readMarks opened (groups + (kind.shown Kind.group?).length) rest = .ok marks →
          readMarks opened groups
              (place offset (printKind kind ++ printQuantifier? quantifier) ++ rest) =
            .ok ((itemOf quantifier kind).marks ++ marks)
  | .group number body, offset, opened, groups, quantifier, rest, marks, wellFormed, numbered,
      avoids, read => by
      rw [Node.WellFormed, Kind.WellFormed] at wellFormed
      obtain ⟨bodyWellFormed, stored⟩ := wellFormed
      have shown : (Kind.group number body).shown Kind.group? = number :: body.groupNumbers :=
        Kind.shown_group _ _ _
      rw [shown] at numbered read
      obtain ⟨rfl, inside⟩ := numbered_cons.mp numbered
      rw [List.length_cons, ← Nat.add_assoc, Nat.add_right_comm] at read
      -- Where the parts of the group are placed doesn't matter for reading them, so
      -- their offsets are left open until the whole is put together.
      have repeats := fun next =>
        readQuantifier_print? (fun q asked => (stored q asked).2) next avoids
      have closes := fun next next' => readMarks_closing offset next (repeats next') read
      have closing : ∀ next more, Avoids signs (⟨.plain ')', next⟩ :: more) :=
        fun _ _ => avoids_cons.mpr (by simp [signs])
      have whole := fun next next' next'' => readMarks_opening offset <|
        readMarks_printSequence body next bodyWellFormed inside (closing _ _) (closes next' next'')
      rw [printKind, itemOf, Outline.Item.marks]
      simp only [place_cons, place_append, List.cons_append, List.append_assoc,
        List.nil_append]
      exact whole _ _ _
  | .set _ _, _, _, _, _, _, _, wellFormed, _, avoids, read
  | .single _, _, _, _, _, _, _, wellFormed, _, avoids, read
  | .wordBoundary, _, _, _, _, _, _, wellFormed, _, avoids, read
  | .reference _, _, _, _, _, _, _, wellFormed, _, avoids, read => by
      rw [Node.WellFormed] at wellFormed
      have atom : IsAtom _ := ⟨wellFormed.1, rfl⟩
      rw [shown_of_isAtom atom] at read
      exact readMarks_printAtom atom (fun q asked => (wellFormed.2 q asked).2) avoids read

/-- What nodes are shown as is read as the marks of their items. -/
theorem readMarks_printNodes : ∀ (nodes : List Node) (offset : Nat) {opened : List Nat}
    {groups : Nat} {rest : Glyphs} {marks : List (Mark Kind (Option Quantifier))},
    Node.AllWellFormed nodes → Numbered groups (Node.shownAll Kind.group? nodes) →
      Avoids signs rest →
        readMarks opened (groups + (Node.shownAll Kind.group? nodes).length) rest = .ok marks →
          readMarks opened groups (place offset (printNodes nodes) ++ rest) =
            .ok (Outline.Item.marksOfAll (itemsOf nodes) ++ marks)
  | [], offset, opened, groups, rest, marks, _, _, _, read => by
      rw [Node.shownAll_nil] at read
      simpa [printNodes, itemsOf, Outline.Item.marksOfAll] using read
  | ⟨kind, quantifier⟩ :: nodes, offset, opened, groups, rest, marks, wellFormed, numbered,
      avoids, read => by
      rw [Node.AllWellFormed] at wellFormed
      rw [Node.shownAll_cons, Node.kind] at numbered read
      obtain ⟨first, later⟩ := numbered_append.mp numbered
      rw [List.length_append, ← Nat.add_assoc] at read
      have more := fun next => readMarks_printNodes nodes next wellFormed.2 later avoids read
      have avoids := fun next => avoids_printNodes wellFormed.2 next avoids
      rw [printNodes, printNode, place_append, List.append_assoc, itemsOf,
        Outline.Item.marksOfAll, List.append_assoc]
      exact readMarks_printKind kind offset wellFormed.1 first (avoids _) (more _)

/-- A sequence is read as it was printed. -/
theorem readMarks_printSequence : ∀ (sequence : Sequence) (offset : Nat) {opened : List Nat}
    {groups : Nat} {rest : Glyphs} {marks : List (Mark Kind (Option Quantifier))},
    sequence.WellFormed → Numbered groups sequence.groupNumbers → Avoids signs rest →
      readMarks opened (groups + sequence.groupNumbers.length) rest = .ok marks →
        readMarks opened groups (place offset (printSequence sequence) ++ rest) =
          .ok ((outlineOf sequence).marks ++ marks)
  | .only nodes, offset, opened, groups, rest, marks, wellFormed, numbered, avoids, read => by
      rw [Sequence.WellFormed] at wellFormed
      rw [Sequence.groupNumbers_eq, Sequence.shown_only] at numbered read
      rw [printSequence, outlineOf, Outline.marks]
      exact readMarks_printNodes nodes offset wellFormed numbered avoids read
  | .either nodes alternate, offset, opened, groups, rest, marks, wellFormed, numbered, avoids,
      read => by
      rw [Sequence.WellFormed] at wellFormed
      rw [Sequence.groupNumbers_eq, Sequence.shown_either, ← Sequence.groupNumbers_eq]
        at numbered read
      obtain ⟨first, later⟩ := numbered_append.mp numbered
      rw [List.length_append, ← Nat.add_assoc] at read
      have more := fun next =>
        readMarks_printSequence alternate next wellFormed.2 later avoids read
      have barred := fun next next' => readMarks_bar next (more next')
      rw [printSequence, place_append, place_cons, List.append_assoc, List.cons_append,
        outlineOf, Outline.marks, List.append_assoc, List.cons_append]
      exact readMarks_printNodes nodes offset wellFormed.1 first
        (avoids_cons.mpr (by simp [signs])) (barred _ _)

end

/-- What is printed for a sequence of a pattern compiles to that sequence. -/
theorem compile_print {root : Sequence} {groups : Nat} (isPattern : root.IsPattern groups) :
    compile (print root) = .ok ⟨print root, root, groups⟩ := by
  have length : root.groupNumbers.length = groups := by
    rw [isPattern.numbered, List.length_range']
  have numbered : Numbered 0 root.groupNumbers := by
    rw [Numbered, length, isPattern.numbered]
  have ends : readMarks [] (0 + root.groupNumbers.length) [] = .ok [] :=
    reader.nil_iff.mpr ⟨rfl, rfl⟩
  have read := readMarks_printSequence root 0 isPattern.wellFormed numbered (by simp [Avoids]) ends
  rw [List.append_nil, List.append_nil] at read
  -- The compiler counts the groups in the marks; the sequence shows their numbers.
  have counted : Mark.groups (outlineOf root).marks = groups := by
    rw [← Mark.length_numbers, ← groupNumbers_sequenceOf _ (isMark_of_readMarks read),
      sequenceOf_outlineOf root isPattern.wellFormed, length]
  rw [compile_eq_ok_iff, glyphs_print]
  exact ⟨outlineOf root, read, by rw [sequenceOf_outlineOf root isPattern.wellFormed, counted]⟩

/-- Compiled patterns keep their source and are well-formed; and a sequence is
that of a pattern exactly if printing it and compiling what was printed leads
back to it. -/
theorem isPattern_iff_compile_print :
    (∀ source pattern, compile source = .ok pattern →
      pattern.source = source ∧ pattern.root.IsPattern pattern.groups) ∧
    ∀ (root : Sequence) (groups : Nat),
      root.IsPattern groups ↔ compile (print root) = .ok ⟨print root, root, groups⟩ := by
  refine ⟨fun _ _ => isPattern_of_compile_eq_ok, fun root groups => ⟨compile_print, ?_⟩⟩
  intro compiled
  exact (isPattern_of_compile_eq_ok compiled).2

/-- A repeated group with a negated set in it, or else a word boundary. -/
def sample : Sequence :=
  .either
    [⟨.group 1 (.only
      [⟨.set [.one (.single (.range 'x' 'z')), .one (.single .digit)] true, some ⟨2, some 3⟩⟩]),
      some ⟨1, none⟩⟩]
    (.only [.one .wordBoundary])

/-- The sample is printed with bounds; the source with a plus is another for it. -/
theorem sample_isPattern_iff_compile_print :
    sample.IsPattern 1 ∧ print sample = "([^x-z\\d]\x7b2,3\x7d)\x7b1,\x7d|\\b" ∧
      compile "([^x-z\\d]\x7b2,3\x7d)\x7b1,\x7d|\\b" =
        .ok ⟨"([^x-z\\d]\x7b2,3\x7d)\x7b1,\x7d|\\b", sample, 1⟩ ∧
      ∃ pattern, compile "([^x-z\\d]\x7b2,3\x7d)+|\\b" = .ok pattern ∧
        pattern.root.IsPattern pattern.groups := by
  obtain ⟨sound, returns⟩ := isPattern_iff_compile_print
  have items : ∀ item ∈ [Node.one (.single (.range 'x' 'z')), .one (.single .digit)],
      item.IsItem :=
    List.forall_mem_cons.mpr ⟨⟨.range 'x' 'z', show 'x' ≤ 'z' by decide, rfl⟩,
      List.forall_mem_singleton.mpr ⟨.digit, trivial, rfl⟩⟩
  have isPattern : sample.IsPattern 1 := by
    refine ⟨?_, rfl⟩
    simp only [sample, Sequence.WellFormed, Node.AllWellFormed, Node.WellFormed, Kind.WellFormed]
    refine ⟨⟨⟨⟨⟨items, ?_⟩, trivial⟩, ?_⟩, trivial⟩, ⟨trivial, by simp⟩, trivial⟩
    · rintro _ ⟨⟩
      exact ⟨by decide, by decide, by simp, by simp [maxNumber]⟩
    · rintro _ ⟨⟩
      exact ⟨by decide, by decide, by simp, by simp⟩
  have printed : print sample = "([^x-z\\d]\x7b2,3\x7d)\x7b1,\x7d|\\b" := by decide +kernel
  have compiled := (returns sample 1).mp isPattern
  rw [printed] at compiled
  have accepted : (compile "([^x-z\\d]\x7b2,3\x7d)+|\\b").toOption.isSome = true := by
    decide +kernel
  refine ⟨isPattern, printed, compiled, ?_⟩
  cases found : compile "([^x-z\\d]\x7b2,3\x7d)+|\\b" with
  | error fault => simp [found, Except.toOption] at accepted
  | ok pattern => exact ⟨pattern, rfl, (sound _ pattern found).2⟩

end TextGrammar.Pattern
