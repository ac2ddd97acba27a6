import TextGrammar.Proofs.Pattern.Reading
import TextGrammar.Proofs.Pattern.Visit

/-!
Well-formed patterns.

Not every sequence is that of a pattern: patterns have no references, ranges only
in sets, and in sets nothing but single characters and classes of them; bounds
are numbers in order, and groups are numbered from 1 in the order in which they
open. `Sequence.IsPattern` says all this without the compiler, and every compiled
pattern complies (`isPattern_of_compile_eq_ok`).
-/

namespace TextGrammar

/-- A class that a set may hold: a range in order, a character, or a class with
a name. The dot has no place in sets. -/
def CharClass.IsItem : CharClass → Prop
  | .literal _ => True
  | .range low high => low ≤ high
  | .dot => False
  | .whitespace | .notWhitespace | .word | .notWord | .digit | .notDigit => True

/-- A class that a pattern may ask for outside of sets. -/
def CharClass.IsAlone : CharClass → Prop
  | .range _ _ => False
  | _ => True

/-- The bounds are numbers of 64 bits, and in order. -/
structure Quantifier.InBounds (quantifier : Quantifier) : Prop where
  min_small : quantifier.min ≤ maxNumber
  min_le : ∀ max, quantifier.max = some max → quantifier.min ≤ max
  max_small : ∀ max, quantifier.max = some max → max ≤ maxNumber

/-- A node of a set: a class, exactly once. -/
def Node.IsItem (node : Node) : Prop :=
  ∃ chars, chars.IsItem ∧ node = ⟨.single chars, none⟩

mutual

def Kind.WellFormed : Kind → Prop
  | .group _ body => body.WellFormed
  | .set items _ => ∀ item ∈ items, item.IsItem
  | .single chars => chars.IsAlone
  | .wordBoundary => True
  | .reference _ => False

def Node.WellFormed : Node → Prop
  | ⟨kind, quantifier⟩ =>
      kind.WellFormed ∧ ∀ q, quantifier = some q → q ≠ ⟨1, some 1⟩ ∧ q.InBounds

def Node.AllWellFormed : List Node → Prop
  | [] => True
  | node :: nodes => node.WellFormed ∧ Node.AllWellFormed nodes

/-- The sequence is made of what patterns are made of. -/
def Sequence.WellFormed : Sequence → Prop
  | .only nodes => Node.AllWellFormed nodes
  | .either nodes alternate => Node.AllWellFormed nodes ∧ alternate.WellFormed

end

/-- The sequence is that of a pattern with so many groups. -/
structure Sequence.IsPattern (root : Sequence) (groups : Nat) : Prop where
  wellFormed : root.WellFormed
  numbered : root.groupNumbers = List.range' 1 groups

namespace Pattern

/-! ### What is read -/

/-- A kind that is read in one piece. -/
def IsAtom (kind : Kind) : Prop :=
  kind.WellFormed ∧ kind.group? = none

theorem isItem_escapedClass (c : Char) : (escapedClass c).IsItem := by
  unfold escapedClass
  split <;> exact trivial

theorem isAlone_escapedClass (c : Char) : (escapedClass c).IsAlone := by
  unfold escapedClass
  split <;> exact trivial

theorem isItem_of_item? {glyph : Glyph} {item : CharClass} (found : glyph.item? = some item) :
    item.IsItem := by
  unfold Glyph.item? at found
  split at found
  · cases found
    exact trivial
  · cases found
    exact trivial
  · cases found
    exact isItem_escapedClass _
  · cases found

theorem isAtom_of_kind? {glyph : Glyph} {kind : Kind} (found : glyph.kind? = some kind) :
    IsAtom kind := by
  unfold Glyph.kind? at found
  split at found
  · cases found
    exact ⟨by simp [Kind.WellFormed, CharClass.IsAlone], rfl⟩
  · cases found
    exact ⟨by simp [Kind.literal, Kind.WellFormed, CharClass.IsAlone], rfl⟩
  · cases found
    exact ⟨by simp [Kind.WellFormed], rfl⟩
  · cases found
    exact ⟨by simpa [Kind.WellFormed] using isAlone_escapedClass _, rfl⟩
  · cases found

theorem isItem_of_readSetItem {first : Located Glyph} {rest left : Glyphs} {item : CharClass}
    (read : readSetItem first rest = .ok (item, left)) : item.IsItem := by
  unfold readSetItem at read
  split at read
  · cases read
  · split at read
    · split at read
      · cases read
        exact trivial
      · split at read
        · cases read
        · split at read
          · cases read
          · rename_i ordered
            cases read
            exact Char.not_lt.mp ordered
        · cases read
    · cases read
      exact trivial
  · rename_i found
    cases read
    exact isItem_of_item? found

theorem isItem_of_readSetItems {opened : Nat} {rest left : Glyphs} {items : List CharClass}
    (read : readSetItems opened rest = .ok (items, left)) : ∀ item ∈ items, item.IsItem := by
  fun_induction readSetItems opened rest generalizing items left with
  | case1 => cases read
  | case2 first rest closes =>
      cases read
      simp
  | case3 => cases read
  | case4 => cases read
  | case5 first rest _ item middle one items' left' more ih =>
      cases read
      exact List.forall_mem_cons.mpr ⟨isItem_of_readSetItem one, ih more⟩

theorem isAtom_of_readAtom {first : Located Glyph} {rest left : Glyphs} {kind : Kind}
    (read : readAtom first rest = .ok (kind, left)) : IsAtom kind := by
  unfold readAtom at read
  split at read
  · unfold readSet at read
    simp only at read
    split at read
    · cases read
    · rename_i items _ ofItems
      cases read
      refine ⟨?_, rfl⟩
      rw [Kind.WellFormed, List.forall_mem_map]
      exact fun item mem => ⟨item, isItem_of_readSetItems ofItems item mem, rfl⟩
  · split at read
    · rename_i found
      cases read
      exact isAtom_of_kind? found
    · cases read

/-- Bounds are read as numbers, if not always in order. -/
theorem small_of_readBounds? {rest left : Glyphs} {quantifier : Quantifier}
    (read : readBounds? rest = some (quantifier, left)) :
    quantifier.min ≤ maxNumber ∧ ∀ max, quantifier.max = some max → max ≤ maxNumber := by
  obtain ⟨min, low, ⟨brace, ends, rfl⟩ | ⟨comma, brace, ends, rfl⟩ |
    ⟨comma, after, max, brace, ends, high, ends', rfl⟩⟩ := readBounds?_eq_some_iff.mp read
  all_goals obtain ⟨_, _, _, small⟩ := number?_eq_some_iff.mp low
  · exact ⟨small, by simpa [Quantifier.exactly] using small⟩
  · exact ⟨small, by simp [Quantifier.atLeast]⟩
  · obtain ⟨_, _, _, small'⟩ := number?_eq_some_iff.mp high
    exact ⟨small, by simpa using small'⟩

theorem inBounds_of_readQuantifier {rest left : Glyphs} {quantifier : Option Quantifier}
    (read : readQuantifier rest = .ok (quantifier, left)) :
    ∀ q, quantifier = some q → q.InBounds := by
  unfold readQuantifier at read
  split at read
  · cases read
    rintro q ⟨⟩
    exact ⟨by decide, by simp [Quantifier.zeroOrMore], by simp [Quantifier.zeroOrMore]⟩
  · cases read
    rintro q ⟨⟩
    exact ⟨by decide, by simp [Quantifier.onceOrMore], by simp [Quantifier.onceOrMore]⟩
  · cases read
    rintro q ⟨⟩
    exact ⟨by decide, by simp [Quantifier.atMostOnce],
      by simp [Quantifier.atMostOnce, maxNumber]⟩
  · split at read
    · rename_i bounds
      obtain ⟨minSmall, maxSmall⟩ := small_of_readBounds? bounds
      split at read
      · cases read
      · rename_i ordered
        cases read
        rintro q ⟨⟩
        exact ⟨minSmall, by simpa using ordered, maxSmall⟩
    · rename_i bounds
      obtain ⟨minSmall, maxSmall⟩ := small_of_readBounds? bounds
      cases read
      rintro q ⟨⟩
      exact ⟨minSmall, by simp, maxSmall⟩
    · cases read
      simp
  · cases read
    simp

/-- What marks of a pattern hold. -/
def IsMark : Mark Kind (Option Quantifier) → Prop
  | .atom kind quantifier => IsAtom kind ∧ ∀ q, quantifier = some q → q.InBounds
  | .closing quantifier => ∀ q, quantifier = some q → q.InBounds
  | .opening _ => True
  | .bar => True

/-- All marks that are read are marks of a pattern that can be written. -/
theorem isMark_of_readMarks {opened : List Nat} {groups : Nat} {glyphs : Glyphs}
    {marks : List (Mark Kind (Option Quantifier))}
    (read : readMarks opened groups glyphs = .ok marks) : ∀ mark ∈ marks, IsMark mark := by
  induction marks generalizing opened groups glyphs with
  | nil => simp
  | cons mark marks ih =>
      obtain ⟨next, step, more⟩ := reads_of_readMarks read
      refine List.forall_mem_cons.mpr ⟨?_, ih more⟩
      cases step with
      | opening | bar => exact trivial
      | closing closes repeats => exact inBounds_of_readQuantifier repeats
      | atom one repeats => exact ⟨isAtom_of_readAtom one.2, inBounds_of_readQuantifier repeats⟩

/-! ### What it stands for -/

/-- What asks for exactly once is left out, so it isn't stored. -/
theorem wellFormed_quantified {kind : Kind} {quantifier : Option Quantifier}
    (wellFormed : kind.WellFormed) (inBounds : ∀ q, quantifier = some q → q.InBounds) :
    (Node.quantified kind quantifier).WellFormed := by
  rw [Node.quantified, Node.WellFormed]
  refine ⟨wellFormed, fun q stored => ?_⟩
  obtain ⟨asked, often⟩ := Option.filter_eq_some_iff.mp stored
  refine ⟨?_, inBounds q asked⟩
  rintro rfl
  exact absurd often (by decide)

theorem shownAll_of_isItem {items : List Node} (all : ∀ item ∈ items, item.IsItem) :
    Node.shownAll Kind.group? items = [] := by
  induction items with
  | nil => exact Node.shownAll_nil _
  | cons item items ih =>
      obtain ⟨⟨chars, _, rfl⟩, more⟩ := List.forall_mem_cons.mp all
      rw [Node.shownAll_cons, Node.kind, Kind.shown_single, ih more]
      rfl

/-- A kind that is read in one piece opens no groups. -/
theorem shown_of_isAtom {kind : Kind} (atom : IsAtom kind) : kind.shown Kind.group? = [] := by
  obtain ⟨wellFormed, alone⟩ := atom
  cases kind with
  | group => simp [Kind.group?] at alone
  | set items negated =>
      rw [Kind.WellFormed] at wellFormed
      rw [Kind.shown_set, shownAll_of_isItem wellFormed]
      rfl
  | single chars => exact Kind.shown_single _ _
  | wordBoundary => exact Kind.shown_wordBoundary _
  | reference name => exact Kind.shown_reference _ _

mutual

theorem wellFormed_nodeOf : ∀ item : Outline.Item Kind (Option Quantifier),
    (∀ mark ∈ item.marks, IsMark mark) → (nodeOf item).WellFormed
  | .atom kind quantifier, marks => by
      obtain ⟨atom, inBounds⟩ : IsMark (.atom kind quantifier) :=
        marks _ (by simp [Outline.Item.marks])
      rw [nodeOf_atom]
      exact wellFormed_quantified atom.1 inBounds
  | .group number body quantifier, marks => by
      have inBounds : IsMark (.closing quantifier) := marks _ (by simp [Outline.Item.marks])
      have inside := wellFormed_sequenceOf body fun mark mem =>
        marks mark (by simp [Outline.Item.marks, mem])
      rw [nodeOf_group]
      exact wellFormed_quantified (by rwa [Kind.WellFormed]) inBounds

theorem wellFormed_nodesOf : ∀ items : List (Outline.Item Kind (Option Quantifier)),
    (∀ mark ∈ Outline.Item.marksOfAll items, IsMark mark) → Node.AllWellFormed (nodesOf items)
  | [], _ => by simp [nodesOf_nil, Node.AllWellFormed]
  | item :: items, marks => by
      rw [Outline.Item.marksOfAll, List.forall_mem_append] at marks
      rw [nodesOf_cons, Node.AllWellFormed]
      exact ⟨wellFormed_nodeOf item marks.1, wellFormed_nodesOf items marks.2⟩

/-- The sequence of such marks is well-formed. -/
theorem wellFormed_sequenceOf : ∀ outline : Outline Kind (Option Quantifier),
    (∀ mark ∈ outline.marks, IsMark mark) → (sequenceOf outline).WellFormed
  | .only items, marks => by
      rw [sequenceOf_only, Sequence.WellFormed]
      exact wellFormed_nodesOf items marks
  | .either items alternate, marks => by
      rw [Outline.marks, List.forall_mem_append, List.forall_mem_cons] at marks
      rw [sequenceOf_either, Sequence.WellFormed]
      exact ⟨wellFormed_nodesOf items marks.1, wellFormed_sequenceOf alternate marks.2.2⟩

end

mutual

theorem groupNumbers_nodeOf : ∀ item : Outline.Item Kind (Option Quantifier),
    (∀ mark ∈ item.marks, IsMark mark) →
      (nodeOf item).kind.shown Kind.group? = Mark.numbers item.marks
  | .atom kind quantifier, marks => by
      obtain ⟨atom, _⟩ : IsMark (.atom kind quantifier) := marks _ (by simp [Outline.Item.marks])
      rw [nodeOf_atom, Node.quantified, Node.kind, shown_of_isAtom atom]
      rfl
  | .group number body quantifier, marks => by
      have inside := groupNumbers_sequenceOf body fun mark mem =>
        marks mark (by simp [Outline.Item.marks, mem])
      rw [nodeOf_group, Node.quantified, Node.kind, Kind.shown_group, ← Sequence.groupNumbers_eq,
        inside]
      simp [Kind.group?, Mark.numbers, Outline.Item.marks]

/-- The groups of the nodes are those that the marks number. -/
theorem groupNumbers_nodesOf : ∀ items : List (Outline.Item Kind (Option Quantifier)),
    (∀ mark ∈ Outline.Item.marksOfAll items, IsMark mark) →
      Node.shownAll Kind.group? (nodesOf items) = Mark.numbers (Outline.Item.marksOfAll items)
  | [], _ => by
      rw [nodesOf_nil, Node.shownAll_nil]
      rfl
  | item :: items, marks => by
      rw [Outline.Item.marksOfAll, List.forall_mem_append] at marks
      rw [nodesOf_cons, Node.shownAll_cons, groupNumbers_nodeOf item marks.1,
        groupNumbers_nodesOf items marks.2, Outline.Item.marksOfAll, Mark.numbers_append]

/-- The groups of the sequence are those that the marks open, in order. -/
theorem groupNumbers_sequenceOf : ∀ outline : Outline Kind (Option Quantifier),
    (∀ mark ∈ outline.marks, IsMark mark) →
      (sequenceOf outline).groupNumbers = Mark.numbers outline.marks
  | .only items, marks => by
      rw [sequenceOf_only, Sequence.groupNumbers_eq, Sequence.shown_only,
        groupNumbers_nodesOf items marks]
      rfl
  | .either items alternate, marks => by
      rw [Outline.marks, List.forall_mem_append, List.forall_mem_cons] at marks
      have later := groupNumbers_sequenceOf alternate marks.2.2
      rw [Sequence.groupNumbers_eq] at later
      rw [sequenceOf_either, Sequence.groupNumbers_eq, Sequence.shown_either,
        groupNumbers_nodesOf items marks.1, later, Outline.marks, Mark.numbers_append]
      rfl

end

/-- A compiled pattern keeps its source, and its sequence is that of a pattern. -/
theorem isPattern_of_compile_eq_ok {source : String} {pattern : Pattern}
    (compiled : compile source = .ok pattern) :
    pattern.source = source ∧ pattern.root.IsPattern pattern.groups := by
  obtain ⟨outline, read, rfl⟩ := compile_eq_ok_iff.mp compiled
  have all : ∀ mark ∈ outline.marks, IsMark mark := isMark_of_readMarks read
  refine ⟨rfl, wellFormed_sequenceOf outline all, ?_⟩
  rw [groupNumbers_sequenceOf outline all, reader.numbers read]

end Pattern

end TextGrammar
