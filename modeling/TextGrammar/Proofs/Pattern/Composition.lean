import TextGrammar.Proofs.Pattern.Continuation
import TextGrammar.Proofs.Pattern.Stops

/-!
Patterns put together.

Sources can be joined by a bar and put into parentheses as patterns can be given an
alternate and made a group. What the sources compile to is put together in the same way,
but for the numbers of the groups that come later (`compile_or_and_grouped`), and so is
what they match.
-/

namespace TextGrammar

namespace Pattern

/-- The pattern with another one to try where it doesn't match. -/
def or (pattern other : Pattern) : Pattern where
  source := pattern.source ++ "|" ++ other.source
  root := pattern.root.or (other.root.renumber (· + pattern.groups))
  groups := pattern.groups + other.groups

def grouped (pattern : Pattern) : Pattern where
  source := "(" ++ pattern.source ++ ")"
  root := .only [.one (.group 1 (pattern.root.renumber (· + 1)))]
  groups := pattern.groups + 1

/-! ### Sequences of outlines put together -/

theorem sequenceOf_or (other : Outline Kind (Option Quantifier)) :
    ∀ outline : Outline Kind (Option Quantifier),
      sequenceOf (outline.or other) = (sequenceOf outline).or (sequenceOf other)
  | .only items => by rw [Outline.or, sequenceOf_either, sequenceOf_only, Sequence.or]
  | .either items alternate => by
      rw [Outline.or, sequenceOf_either, sequenceOf_either, Sequence.or,
        sequenceOf_or other alternate]

variable {number : Nat → Nat}

theorem renumberAll_of_isItem {items : List Node} (all : ∀ item ∈ items, item.IsItem) :
    Node.renumberAll number items = items := by
  induction items with
  | nil => rw [Node.renumberAll]
  | cons item items ih =>
      obtain ⟨⟨chars, _, rfl⟩, more⟩ := List.forall_mem_cons.mp all
      rw [Node.renumberAll, Node.renumber, Kind.renumber, ih more]

/-- A kind that is read in one piece has no groups to renumber. -/
theorem renumber_of_isAtom {kind : Kind} (atom : IsAtom kind) : kind.renumber number = kind := by
  obtain ⟨wellFormed, alone⟩ := atom
  cases kind with
  | group => simp [Kind.group?] at alone
  | set items negated =>
      rw [Kind.WellFormed] at wellFormed
      rw [Kind.renumber, renumberAll_of_isItem wellFormed]
  | single | wordBoundary | reference => rw [Kind.renumber]

mutual

theorem nodeOf_renumber : ∀ item : Outline.Item Kind (Option Quantifier),
    (∀ mark ∈ item.marks, IsMark mark) →
      nodeOf (item.renumber number) = (nodeOf item).renumber number
  | .atom kind quantifier, marks => by
      obtain ⟨atom, _⟩ : IsMark (.atom kind quantifier) := marks _ (by simp [Outline.Item.marks])
      rw [Outline.Item.renumber, nodeOf_atom, Node.quantified, Node.renumber,
        renumber_of_isAtom atom]
  | .group old body quantifier, marks => by
      have inside := sequenceOf_renumber body fun mark mem =>
        marks mark (by simp [Outline.Item.marks, mem])
      rw [Outline.Item.renumber, nodeOf_group, nodeOf_group, Node.quantified, Node.quantified,
        Node.renumber, Kind.renumber, inside]

theorem nodesOf_renumberAll : ∀ items : List (Outline.Item Kind (Option Quantifier)),
    (∀ mark ∈ Outline.Item.marksOfAll items, IsMark mark) →
      nodesOf (Outline.Item.renumberAll number items) = Node.renumberAll number (nodesOf items)
  | [], _ => by rw [Outline.Item.renumberAll, nodesOf_nil, Node.renumberAll]
  | item :: items, marks => by
      rw [Outline.Item.marksOfAll, List.forall_mem_append] at marks
      rw [Outline.Item.renumberAll, nodesOf_cons, nodesOf_cons, Node.renumberAll,
        nodeOf_renumber item marks.1, nodesOf_renumberAll items marks.2]

/-- A renumbered outline stands for the renumbered sequence. -/
theorem sequenceOf_renumber : ∀ outline : Outline Kind (Option Quantifier),
    (∀ mark ∈ outline.marks, IsMark mark) →
      sequenceOf (outline.renumber number) = (sequenceOf outline).renumber number
  | .only items, marks => by
      rw [Outline.renumber, sequenceOf_only, sequenceOf_only, Sequence.renumber,
        nodesOf_renumberAll items marks]
  | .either items alternate, marks => by
      rw [Outline.marks, List.forall_mem_append, List.forall_mem_cons] at marks
      rw [Outline.renumber, sequenceOf_either, sequenceOf_either, Sequence.renumber,
        nodesOf_renumberAll items marks.1, sequenceOf_renumber alternate marks.2.2]

end

/-! ### Compiling -/

variable {source other : String} {pattern alternate : Pattern}

/-- The alternate is numbered behind the groups that stand in front of the bar. -/
theorem compile_or (first : compile source = .ok pattern)
    (second : compile other = .ok alternate) :
    compile (source ++ "|" ++ other) = .ok (pattern.or alternate) := by
  obtain ⟨outline, read, rfl⟩ := compile_eq_ok_iff.mp first
  obtain ⟨outline', read', rfl⟩ := compile_eq_ok_iff.mp second
  let shift := Mark.groups outline.marks
  let renumbered := outline'.renumber (· + shift)
  have bar (offset : Nat) : glyphs offset ('|' :: other.toList) =
      ⟨.plain '|', offset⟩ :: glyphs (offset + '|'.utf8Size) other.toList :=
    glyphs_cons_of_ne (by decide) offset _
  have parts : Parts (glyphs (0 + Text.size source.toList) ('|' :: other.toList)) := by
    rw [bar]
    exact parts_cons (.inl rfl)
  have goesOn : readMarks [] shift
      (glyphs (0 + Text.size source.toList) ('|' :: other.toList)) =
        .ok (.bar :: renumbered.marks) := by
    rw [bar, Outline.marks_renumber]
    exact readMarks_bar _ (readMarks_shift read' shift _)
  have whole := readMarks_append read 0 0 parts goesOn
  have unmoved : outline.marks.map (Mark.renumber (· + 0)) = outline.marks :=
    Mark.map_renumber_id outline.marks
  have counted : Mark.groups (outline.or renumbered).marks = shift + Mark.groups outline'.marks := by
    rw [Outline.marks_or, Mark.groups_append, Mark.groups_bar, Outline.marks_renumber,
      Mark.groups_map_renumber]
  have text : (source ++ "|" ++ other).toList = source.toList ++ '|' :: other.toList := by
    simp
  rw [compile_eq_ok_iff, text]
  refine ⟨outline.or renumbered, ?_, ?_⟩
  · rw [whole, unmoved, Outline.marks_or]
  · rw [or, counted, sequenceOf_or, sequenceOf_renumber outline' (isMark_of_readMarks read')]

/-- The group itself is the first, so those inside it are numbered one higher. -/
theorem compile_grouped (compiled : compile source = .ok pattern) :
    compile ("(" ++ source ++ ")") = .ok pattern.grouped := by
  obtain ⟨outline, read, rfl⟩ := compile_eq_ok_iff.mp compiled
  let renumbered := outline.renumber (· + 1)
  have whole : readMarks [0] 1 (glyphs (0 + '('.utf8Size) (source.toList ++ [')'])) =
      .ok (renumbered.marks ++ [.closing none]) := by
    have ends : readMarks [] (Mark.groups outline.marks + 1) [] = .ok [] :=
      reader.nil_iff.mpr ⟨rfl, rfl⟩
    rw [Outline.marks_renumber]
    exact readMarks_append read 1 _ (parts_cons (.inr rfl)) (readMarks_closing 0 _ rfl ends)
  have opens : glyphs 0 ('(' :: (source.toList ++ [')'])) =
      ⟨.plain '(', 0⟩ :: glyphs (0 + '('.utf8Size) (source.toList ++ [')']) :=
    glyphs_cons_of_ne (by decide) 0 _
  have text : ("(" ++ source ++ ")").toList = '(' :: (source.toList ++ [')']) := by
    simp
  rw [compile_eq_ok_iff, text, opens]
  have written : (Outline.only [.group 1 renumbered none]).marks =
      .opening 1 :: (renumbered.marks ++ [.closing none]) := by
    simp [Outline.marks, Outline.Item.marksOfAll, Outline.Item.marks]
  refine ⟨.only [.group 1 renumbered none], ?_, ?_⟩
  · rw [readMarks_opening 0 whole, written]
  · have counted : Mark.groups (renumbered.marks ++ [.closing none]) = Mark.groups outline.marks := by
      rw [Mark.groups_append, Mark.groups_closing, Outline.marks_renumber,
        Mark.groups_map_renumber]
      rfl
    rw [written, Mark.groups_opening, counted, sequenceOf_only, nodesOf_cons, nodeOf_group,
      nodesOf_nil, sequenceOf_renumber outline (isMark_of_readMarks read)]
    rfl

/-! ### Matching -/

variable {text : Text} {offset : Nat}

theorem map_stop_matchAt?_or (pattern other : Pattern) :
    ((pattern.or other).matchAt? text offset).map Match.stop =
      ((pattern.matchAt? text offset).map Match.stop).or
        ((other.matchAt? text offset).map Match.stop) := by
  by_cases place : text.IsPlace offset
  · rw [map_stop_matchAt? _ place, map_stop_matchAt? _ place, map_stop_matchAt? _ place, or,
      Sequence.stop?_or _ place, Sequence.stop?_renumber]
  · rw [matchAt?_eq_none _ place, matchAt?_eq_none _ place, matchAt?_eq_none _ place]
    rfl

theorem map_stop_matchAt?_grouped (pattern : Pattern) :
    (pattern.grouped.matchAt? text offset).map Match.stop =
      (pattern.matchAt? text offset).map Match.stop := by
  by_cases place : text.IsPlace offset
  · rw [map_stop_matchAt? _ place, map_stop_matchAt? _ place, grouped, Sequence.stop?_only,
      Node.stopAll?_singleton, Node.stop?_one _ place, Kind.stop?_group, Sequence.stop?_renumber]
  · rw [matchAt?_eq_none _ place, matchAt?_eq_none _ place]

/-- Sources that compile can be joined by a bar and put into parentheses, and compile to
the patterns of the parts, put together. The first of two alternatives that matches tells
where the match ends, and a group matches as what stands in it. -/
theorem compile_or_and_grouped (first : compile source = .ok pattern)
    (second : compile other = .ok alternate) :
    compile (source ++ "|" ++ other) = .ok (pattern.or alternate) ∧
      compile ("(" ++ source ++ ")") = .ok pattern.grouped ∧
      ∀ (text : Text) (offset : Nat),
        ((pattern.or alternate).matchAt? text offset).map Match.stop =
            ((pattern.matchAt? text offset).map Match.stop).or
              ((alternate.matchAt? text offset).map Match.stop) ∧
          (pattern.grouped.matchAt? text offset).map Match.stop =
            (pattern.matchAt? text offset).map Match.stop :=
  ⟨compile_or first second, compile_grouped first, fun _ _ =>
    ⟨map_stop_matchAt?_or pattern alternate, map_stop_matchAt?_grouped pattern⟩⟩

/-- A group and a brace with a digit that make no bounds, even in front of a bar. -/
def unbounded : Pattern where
  source := "(x)\x7b2"
  root := .only [.one (.group 1 (.only [.one (.literal 'x')])), .one (.literal '\x7b'),
    .one (.literal '2')]
  groups := 1

def lone : Pattern where
  source := "(y)"
  root := .only [.one (.group 1 (.only [.one (.literal 'y')]))]
  groups := 1

theorem unbounded_or_lone :
    compile "(x)\x7b2|(y)" = .ok (unbounded.or lone) ∧
      (unbounded.or lone).root.groupNumbers = [1, 2] ∧
      compile "((x)\x7b2)" = .ok unbounded.grouped ∧
      ((unbounded.or lone).matchAt? "y".toList 0).map Match.stop = some 1 := by
  have ends : ∀ groups, readMarks [] groups [] = .ok [] := fun _ => reader.nil_iff.mpr ⟨rfl, rfl⟩
  have first : compile "(x)\x7b2" = .ok unbounded := by
    have read : readMarks [] 0 (glyphs 0 "(x)\x7b2".toList) = .ok
        [.opening 1, .atom (.literal 'x') none, .closing none, .atom (.literal '\x7b') none,
          .atom (.literal '2') none] :=
      readMarks_opening 0 <| readMarks_of_reads (.atom ⟨by decide, rfl⟩ rfl) <|
        readMarks_closing 0 2 rfl <| readMarks_of_reads (.atom ⟨by decide, rfl⟩ rfl) <|
          readMarks_of_reads (.atom ⟨by decide, rfl⟩ rfl) (ends 1)
    rw [compile, Pattern.read, read]
    rfl
  have second : compile "(y)" = .ok lone := by
    have read : readMarks [] 0 (glyphs 0 "(y)".toList) = .ok
        [.opening 1, .atom (.literal 'y') none, .closing none] :=
      readMarks_opening 0 <| readMarks_of_reads (.atom ⟨by decide, rfl⟩ rfl) <|
        readMarks_closing 0 2 rfl (ends 1)
    rw [compile, Pattern.read, read]
    rfl
  obtain ⟨joined, grouped, matching⟩ := compile_or_and_grouped first second
  refine ⟨joined, by decide, grouped, ?_⟩
  rw [(matching "y".toList 0).1]
  decide +kernel

end Pattern

end TextGrammar
