import TextGrammar.Pattern.Compile
import TextGrammar.Proofs.Outline.Reading

/-!
Reading patterns one mark at a time.

The reader of patterns goes by a script (`reader`), as that of expressions does.
Its atoms and repetitions are already what they mean, so settling an outline of
marks can't fail and is a function from outlines to sequences (`sequenceOf`).
-/

namespace TextGrammar.Pattern

/-- How marks are written in patterns. -/
def script : Script (Located Glyph) Kind (Option Quantifier) where
  opens glyph offset := glyph = ⟨.plain '(', offset⟩
  closes glyph := glyph.content = .plain ')'
  bars glyph := glyph.content = .plain '|'
  atom first rest kind left :=
    first.content ∉ [.plain '(', .plain ')', .plain '|'] ∧ readAtom first rest = .ok (kind, left)
  repetition rest quantifier left := readQuantifier rest = .ok (quantifier, left)

theorem reads_of_readMarks {opened : List Nat} {groups : Nat} {glyphs : Glyphs}
    {mark : Mark Kind (Option Quantifier)} {marks : List (Mark Kind (Option Quantifier))}
    (read : readMarks opened groups glyphs = .ok (mark :: marks)) :
    ∃ next, script.Reads ⟨opened, groups, glyphs⟩ mark next ∧
      readMarks next.opened next.groups next.rest = .ok marks := by
  unfold readMarks at read
  split at read
  · split at read <;> cases read
  · obtain ⟨more, ok, same⟩ := map_eq_ok_iff.mp read
    cases same
    exact ⟨_, .opening rfl, ok⟩
  · split at read
    · cases read
    · split at read
      · cases read
      · obtain ⟨more, ok, same⟩ := map_eq_ok_iff.mp read
        cases same
        exact ⟨_, .closing rfl ‹_›, ok⟩
  · obtain ⟨more, ok, same⟩ := map_eq_ok_iff.mp read
    cases same
    exact ⟨_, .bar rfl, ok⟩
  · rename_i first rest noOpening noClosing noBar
    split at read
    · cases read
    · split at read
      · cases read
      · obtain ⟨more, ok, same⟩ := map_eq_ok_iff.mp read
        cases same
        refine ⟨_, .atom ⟨?_, ‹_›⟩ ‹_›, ok⟩
        obtain ⟨glyph, offset⟩ := first
        simp only [List.mem_cons, List.not_mem_nil, or_false]
        rintro (rfl | rfl | rfl)
        · exact noOpening offset rfl
        · exact noClosing offset rfl
        · exact noBar offset rfl

theorem readMarks_of_reads {opened : List Nat} {groups : Nat} {glyphs : Glyphs}
    {mark : Mark Kind (Option Quantifier)} {marks : List (Mark Kind (Option Quantifier))}
    {next : Stage (Located Glyph)} (step : script.Reads ⟨opened, groups, glyphs⟩ mark next)
    (more : readMarks next.opened next.groups next.rest = .ok marks) :
    readMarks opened groups glyphs = .ok (mark :: marks) := by
  unfold readMarks
  cases step with
  | opening opens =>
      obtain rfl := opens
      exact map_eq_ok_iff.mpr ⟨marks, more, rfl⟩
  | @closing _ _ _ token _ _ _ closes repeats =>
      obtain ⟨glyph, offset⟩ := token
      obtain rfl : glyph = .plain ')' := closes
      simp only
      split
      · exact absurd (repeats.symm.trans ‹_›) (by simp)
      · cases repeats.symm.trans ‹_›
        exact map_eq_ok_iff.mpr ⟨marks, more, rfl⟩
  | @bar _ _ token _ bars =>
      obtain ⟨glyph, offset⟩ := token
      obtain rfl : glyph = .plain '|' := bars
      exact map_eq_ok_iff.mpr ⟨marks, more, rfl⟩
  | @atom _ _ first _ _ _ _ _ one repeats =>
      obtain ⟨glyph, offset⟩ := first
      obtain ⟨unstructured, read⟩ := one
      split <;> rename_i same
      case h_1 => cases same
      case h_5 =>
        obtain ⟨rfl, rfl⟩ := List.cons.inj same
        split
        · exact absurd (read.symm.trans ‹_›) (by simp)
        · cases read.symm.trans ‹_›
          split
          · exact absurd (repeats.symm.trans ‹_›) (by simp)
          · cases repeats.symm.trans ‹_›
            exact map_eq_ok_iff.mpr ⟨marks, more, rfl⟩
      all_goals
        cases same
        simp at unstructured

theorem reader : script.Reader readMarks where
  nil_iff := by
    intro opened groups tokens
    constructor
    · intro read
      unfold readMarks at read
      grind [map_eq_ok_iff]
    · rintro ⟨rfl, rfl⟩
      rw [readMarks]
  cons_iff := ⟨reads_of_readMarks, fun ⟨_, step, more⟩ => readMarks_of_reads step more⟩

/-! ### Bounds -/

/-- Bounds are a number and a brace, perhaps with a comma and one more number between. -/
theorem readBounds?_eq_some_iff {rest left : Glyphs} {quantifier : Quantifier} :
    readBounds? rest = some (quantifier, left) ↔
      ∃ min, number? (readDigits rest).1 = some min ∧
        ((∃ brace, (readDigits rest).2 = ⟨.plain '}', brace⟩ :: left ∧
            quantifier = .exactly min) ∨
          (∃ comma brace, (readDigits rest).2 = ⟨.plain ',', comma⟩ :: ⟨.plain '}', brace⟩ :: left ∧
            quantifier = .atLeast min) ∨
          ∃ comma after max brace, (readDigits rest).2 = ⟨.plain ',', comma⟩ :: after ∧
            number? (readDigits after).1 = some max ∧
            (readDigits after).2 = ⟨.plain '}', brace⟩ :: left ∧ quantifier = ⟨min, some max⟩) := by
  unfold readBounds?
  constructor
  · intro read
    split at read
    · rename_i min brace _ low ends
      cases read
      exact ⟨min, low, .inl ⟨brace, ends, rfl⟩⟩
    · rename_i min comma brace _ low ends
      cases read
      exact ⟨min, low, .inr (.inl ⟨comma, brace, ends, rfl⟩)⟩
    · rename_i min comma after _ low ends
      split at read
      · rename_i max brace _ high ends'
        cases read
        exact ⟨min, low, .inr (.inr ⟨comma, after, max, brace, ends, high, ends', rfl⟩)⟩
      · cases read
    · cases read
  · rintro ⟨min, low, ⟨brace, ends, rfl⟩ | ⟨comma, brace, ends, rfl⟩ |
      ⟨comma, after, max, brace, ends, high, ends', rfl⟩⟩
    · simp only [low, ends]
    · simp only [low, ends]
    · simp only [low, ends]
      split <;> rename_i same
      · cases same
      · -- A digit follows the comma, so the bounds don't end there.
        obtain ⟨-, rfl⟩ := List.cons.inj same
        cases high
      · cases (List.cons.inj same).2
        simp_all
      · simp_all

/-! ### Outlines of patterns -/

/-- The node that an item of a pattern stands for. -/
def nodeOf (item : Outline.Item Kind (Option Quantifier)) : Node :=
  Outline.settleItem (m := Id) pure pure item

def nodesOf (items : List (Outline.Item Kind (Option Quantifier))) : List Node :=
  Outline.settleItems (m := Id) pure pure items

/-- The sequence that an outline of a pattern stands for. -/
def sequenceOf (outline : Outline Kind (Option Quantifier)) : Sequence :=
  Outline.settle (m := Id) pure pure outline

theorem sequenceOfMarks_eq (marks : List (Mark Kind (Option Quantifier))) :
    sequenceOfMarks marks = sequenceOf (.ofMarks marks) := rfl

/-- A source compiles if its marks can be read; it then stands for their outline. -/
theorem compile_eq_ok_iff {source : String} {pattern : Pattern} :
    compile source = .ok pattern ↔
      ∃ outline : Outline Kind (Option Quantifier),
        readMarks [] 0 (glyphs 0 source.toList) = .ok outline.marks ∧
          pattern = ⟨source, sequenceOf outline, Mark.groups outline.marks⟩ := by
  rw [compile, mapError_eq_ok_iff, read, map_eq_ok_iff]
  constructor
  · rintro ⟨marks, read, rfl⟩
    have written : (Outline.ofMarks marks).marks = marks :=
      Outline.marks_ofMarks (reader.closes read)
    exact ⟨.ofMarks marks, by rw [written, read], by rw [written, sequenceOfMarks_eq]⟩
  · rintro ⟨outline, read, rfl⟩
    exact ⟨outline.marks, read, by rw [sequenceOfMarks_eq, Outline.ofMarks_marks]⟩

section Settle

variable (quantifier : Option Quantifier) (items : List (Outline.Item Kind (Option Quantifier)))

theorem nodeOf_atom (kind : Kind) :
    nodeOf (.atom kind quantifier) = .quantified kind quantifier := by
  rw [nodeOf, Outline.settleItem]
  rfl

theorem nodeOf_group (number : Nat) (body : Outline Kind (Option Quantifier)) :
    nodeOf (.group number body quantifier) =
      .quantified (.group number (sequenceOf body)) quantifier := by
  rw [nodeOf, Outline.settleItem]
  rfl

theorem nodesOf_nil : nodesOf [] = [] := by
  rw [nodesOf, Outline.settleItems]
  rfl

theorem nodesOf_cons (item : Outline.Item Kind (Option Quantifier)) :
    nodesOf (item :: items) = nodeOf item :: nodesOf items := by
  rw [nodesOf, Outline.settleItems]
  rfl

theorem sequenceOf_only : sequenceOf (.only items) = .only (nodesOf items) := by
  rw [sequenceOf, Outline.settle]
  rfl

theorem sequenceOf_either (alternate : Outline Kind (Option Quantifier)) :
    sequenceOf (.either items alternate) = .either (nodesOf items) (sequenceOf alternate) := by
  rw [sequenceOf, Outline.settle]
  rfl

end Settle

end TextGrammar.Pattern
