import TextGrammar.Proofs.Expression.Unambiguity
import TextGrammar.Proofs.Outline.Reading

/-!
Reading expressions.

The reader of expressions goes by a script (`reader`), and what a derivation
derives is read as the outline of the derivation (`Choice.readMarks_tokens`). The
latter is shown in front of any tokens that can't go on with what was read, as a
part of an expression is read without a look at where it ends.
-/

namespace TextGrammar.Expression

/-- A token of the right kind is one that the grammar can have there. -/
theorem Leaf.exists_of_kind {symbol : Symbol} {token : Token Symbol} (kind : token.kind = symbol) :
    ∃ leaf : Leaf symbol, leaf.token = token := by
  subst kind
  exact ⟨⟨token.value, token.index⟩, rfl⟩

/-- How marks are written in expressions. -/
def script : Script (Token Symbol) Atom (Option Repetition) where
  opens token offset := token.kind = .leftParen ∧ token.index = offset
  closes token := token.kind = .rightParen
  bars token := token.kind = .pipe
  atom token rest atom left := readAtom token rest = .ok (atom, left)
  repetition rest repetition left := readRepetition rest = .ok (repetition, left)

/-- If marks are read, the first of them was read by a step and the others after it. -/
theorem reads_of_readMarks {opened : List Nat} {groups : Nat} {tokens : Tokens}
    {mark : Mark Atom (Option Repetition)} {marks : List (Mark Atom (Option Repetition))}
    (read : readMarks opened groups tokens = .ok (mark :: marks)) :
    ∃ next, script.Reads ⟨opened, groups, tokens⟩ mark next ∧
      readMarks next.opened next.groups next.rest = .ok marks := by
  unfold readMarks at read
  split at read
  · split at read <;> cases read
  · split at read
    · obtain ⟨more, ok, same⟩ := map_eq_ok_iff.mp read
      cases same
      exact ⟨_, .opening ⟨‹_›, rfl⟩, ok⟩
    · obtain ⟨more, ok, same⟩ := map_eq_ok_iff.mp read
      cases same
      exact ⟨_, .bar ‹_›, ok⟩
    · split at read
      · cases read
      · split at read
        · cases read
        · obtain ⟨more, ok, same⟩ := map_eq_ok_iff.mp read
          cases same
          exact ⟨_, .closing ‹_› ‹_›, ok⟩
    · split at read <;> cases read
    · split at read <;> cases read
    · split at read
      · cases read
      · split at read
        · cases read
        · obtain ⟨more, ok, same⟩ := map_eq_ok_iff.mp read
          cases same
          exact ⟨_, .atom ‹_› ‹_›, ok⟩

/-- A step and the marks after it are read together. -/
theorem readMarks_of_reads {opened : List Nat} {groups : Nat} {tokens : Tokens}
    {mark : Mark Atom (Option Repetition)} {marks : List (Mark Atom (Option Repetition))}
    {next : Stage (Token Symbol)} (step : script.Reads ⟨opened, groups, tokens⟩ mark next)
    (more : readMarks next.opened next.groups next.rest = .ok marks) :
    readMarks opened groups tokens = .ok (mark :: marks) := by
  unfold readMarks
  cases step with
  | opening opens =>
      obtain ⟨kind, rfl⟩ := opens
      simp only [kind]
      exact map_eq_ok_iff.mpr ⟨marks, more, rfl⟩
  | closing closes repeats =>
      have kind : _ = Symbol.rightParen := closes
      simp only [kind]
      split
      · exact absurd (repeats.symm.trans ‹_›) (by simp)
      · cases repeats.symm.trans ‹_›
        exact map_eq_ok_iff.mpr ⟨marks, more, rfl⟩
  | bar bars =>
      have kind : _ = Symbol.pipe := bars
      simp only [kind]
      exact map_eq_ok_iff.mpr ⟨marks, more, rfl⟩
  | atom one repeats =>
      have read : readAtom _ _ = .ok _ := one
      simp only
      split
      case h_6 =>
        split
        · exact absurd (read.symm.trans ‹_›) (by simp)
        · cases read.symm.trans ‹_›
          split
          · exact absurd (repeats.symm.trans ‹_›) (by simp)
          · cases repeats.symm.trans ‹_›
            exact map_eq_ok_iff.mpr ⟨marks, more, rfl⟩
      all_goals simp [readAtom, Symbol.isContent, *] at read

/-- Marks are read in the steps that expressions are made of. -/
theorem reader : script.Reader readMarks where
  nil_iff := by
    intro opened groups tokens
    constructor
    · intro read
      unfold readMarks at read
      grind [map_eq_ok_iff]
    · rintro ⟨rfl, rfl⟩
      rw [readMarks]
  cons_iff := ⟨reads_of_readMarks, fun ⟨_, step, more⟩ => readMarks_of_reads step more⟩

/-! ### Contents and repetitions -/

/-- What stands before a closing sign is read exactly if all of it is content. -/
theorem readContents_eq_ok_iff {closing : Symbol} {sign : Char} {unexpected : String → Fault}
    {opened : Nat} {rest contents left : Tokens} (structural : closing.isContent = false) :
    readContents closing sign unexpected opened rest = .ok (contents, left) ↔
      (∀ token ∈ contents, token.kind.isContent = true) ∧
        ∃ close : Leaf closing, rest = contents ++ close.token :: left := by
  induction rest generalizing contents with
  | nil => simp [readContents]
  | cons token rest ih =>
      rw [readContents]
      split
      · rename_i closes
        obtain ⟨close, rfl⟩ := Leaf.exists_of_kind closes
        constructor
        · intro read
          cases read
          exact ⟨by simp, close, rfl⟩
        · rintro ⟨content, close', same⟩
          cases contents with
          | nil =>
              obtain ⟨_, rfl⟩ := List.cons.inj same
              rfl
          | cons first contents =>
              obtain ⟨rfl, _⟩ := List.cons.inj same
              simp [structural] at content
      · rename_i opens
        constructor
        · intro read
          split at read
          · rename_i isContent
            obtain ⟨⟨contents', left'⟩, more, same⟩ := map_eq_ok_iff.mp read
            obtain ⟨rfl, rfl⟩ := Prod.mk.inj same
            obtain ⟨content, close, rfl⟩ := ih.mp more
            exact ⟨List.forall_mem_cons.mpr ⟨isContent, content⟩, close, rfl⟩
          · cases read
        · rintro ⟨content, close, same⟩
          cases contents with
          | nil =>
              obtain ⟨rfl, _⟩ := List.cons.inj same
              exact absurd (Leaf.kind_token close) opens
          | cons first contents =>
              obtain ⟨rfl, whole⟩ := List.cons.inj same
              obtain ⟨isContent, more⟩ := List.forall_mem_cons.mp content
              rw [if_pos isContent]
              exact map_eq_ok_iff.mpr ⟨(contents, left), ih.mpr ⟨more, close, whole⟩, rfl⟩

/-- How a repetition is read. -/
def Times.repetition : Times → Repetition
  | .star _ => .star
  | .plus _ => .plus
  | .question _ => .question
  | .exactly opening bound _ => .bounds opening.index [bound.token]
  | .atLeast opening min comma _ => .bounds opening.index [min.token, comma.token]
  | .between opening min comma max _ =>
      .bounds opening.index [min.token, comma.token, max.token]

/-- Contents between braces are read as bounds. -/
theorem readRepetition_of_braces (opening : Leaf .leftBrace) (contents rest : Tokens)
    (closing : Leaf .rightBrace) (content : ∀ token ∈ contents, token.kind.isContent = true) :
    readRepetition (opening.token :: (contents ++ closing.token :: rest)) =
      .ok (some (.bounds opening.index contents), rest) := by
  have read : readContents .rightBrace '}' .unexpectedInBounds opening.token.index
      (contents ++ closing.token :: rest) = .ok (contents, rest) :=
    (readContents_eq_ok_iff rfl).mpr ⟨content, closing, rfl⟩
  simp only [readRepetition, Leaf.kind_token, read]
  rfl

/-- What repeats an operand is read as that. -/
theorem Times.readRepetition_append (times : Times) (rest : Tokens) :
    readRepetition (times.tokens ++ rest) = .ok (some times.repetition, rest) := by
  cases times with
  | star sign | plus sign | question sign => rfl
  | exactly opening bound closing =>
      exact readRepetition_of_braces opening [bound.token] rest closing
        (by simp [Symbol.isContent])
  | atLeast opening min comma closing =>
      exact readRepetition_of_braces opening [min.token, comma.token] rest closing
        (by simp [Symbol.isContent])
  | between opening min comma max closing =>
      exact readRepetition_of_braces opening [min.token, comma.token, max.token] rest closing
        (by simp [Symbol.isContent])

/-- Where nothing repeats an operand, nothing is read. -/
theorem readRepetition_eq_none {rest : Tokens} (starts : StartsIn afterOperand rest) :
    readRepetition rest = .ok (none, rest) := by
  cases rest with
  | nil => rfl
  | cons token rest =>
      have mem : token.kind ∈ afterOperand := starts token rfl
      simp only [readRepetition]
      split <;> simp_all

/-- What may repeat an operand is read up to where it ends. -/
theorem readRepetition_append (times : Option Times) {rest : Tokens}
    (starts : StartsIn afterOperand rest) :
    readRepetition (Times.tokens? times ++ rest) = .ok (times.map Times.repetition, rest) := by
  cases times with
  | none => exact readRepetition_eq_none starts
  | some times => exact times.readRepetition_append rest

/-! ### Reading what is derived -/

mutual

/-- An operand with its repetition, as it is read. -/
def Operand.item (opened : Nat) (repetition : Option Repetition) :
    Operand → Outline.Item Atom (Option Repetition)
  | .name name => .atom (.value name.token) repetition
  | .group _ body _ => .group (opened + 1) (body.outline (opened + 1)) repetition
  | .set _ caret names _ =>
      .atom (.set (caret.toList.map Leaf.token ++ names.map Leaf.token)) repetition

def Series.items (opened : Nat) : Series → List (Outline.Item Atom (Option Repetition))
  | .nil => []
  | .cons operand times rest =>
      operand.item opened (times.map Times.repetition) :: rest.items (opened + operand.groups)

/-- The outline of what is derived, when that many groups are opened in front of it. -/
def Choice.outline (opened : Nat) : Choice → Outline Atom (Option Repetition)
  | .only series => .only (series.items opened)
  | .either series _ alternate =>
      .either (series.items opened) (alternate.outline (opened + series.groups))

end

/-- A name is an operand of its own. -/
theorem readAtom_name (name : Leaf .identifier) (rest : Tokens) :
    readAtom name.token rest = .ok (.value name.token, rest) := rfl

/-- A set is read up to its closing bracket. -/
theorem readAtom_set (opening : Leaf .leftBracket) (caret : Option (Leaf .caret))
    (names : List (Leaf .identifier)) (closing : Leaf .rightBracket) (rest : Tokens) :
    readAtom opening.token
        (caret.toList.map Leaf.token ++ (names.map Leaf.token ++ closing.token :: rest)) =
      .ok (.set (caret.toList.map Leaf.token ++ names.map Leaf.token), rest) := by
  have read : readContents .rightBracket ']' .unexpectedInSet opening.token.index
      (caret.toList.map Leaf.token ++ (names.map Leaf.token ++ closing.token :: rest)) =
        .ok (caret.toList.map Leaf.token ++ names.map Leaf.token, rest) := by
    refine (readContents_eq_ok_iff rfl).mpr ⟨?_, closing, by rw [List.append_assoc]⟩
    cases caret <;> simp +contextual [Symbol.isContent]
  simp only [readAtom, Leaf.kind_token, read]

mutual

/-- The tokens of an operand are read as the marks of its item. -/
theorem Operand.readMarks_append (opened : List Nat) (groups : Nat) : ∀ (operand : Operand)
    (times : Option Times) {rest : Tokens} {marks : List (Mark Atom (Option Repetition))},
      StartsIn afterOperand rest →
      readMarks opened (groups + operand.groups) rest = .ok marks →
        readMarks opened groups (operand.tokens ++ (Times.tokens? times ++ rest)) =
          .ok ((operand.item groups (times.map Times.repetition)).marks ++ marks)
  | .name name, times, rest, marks, starts, read =>
      readMarks_of_reads
        (.atom (readAtom_name name _) (readRepetition_append times starts)) read
  | .group opening body closing, times, rest, marks, starts, read => by
      -- From the end to the start, as each mark is read in front of what follows it.
      have closes : readMarks (opening.index :: opened) (groups + 1 + body.groups)
          (closing.token :: (Times.tokens? times ++ rest)) =
            .ok (.closing (times.map Times.repetition) :: marks) :=
        readMarks_of_reads (.closing rfl (readRepetition_append times starts)) (by
          rwa [Operand.groups, Nat.add_comm body.groups, ← Nat.add_assoc] at read)
      have inside := body.readMarks_append (opening.index :: opened) (groups + 1)
        (startsIn_cons.mpr (by decide)) closes
      have whole := readMarks_of_reads (.opening ⟨opening.kind_token, rfl⟩) inside
      simpa [Operand.tokens, Operand.item, Outline.Item.marks] using whole
  | .set opening caret names closing, times, rest, marks, starts, read => by
      rw [Operand.groups, Nat.add_zero] at read
      have whole := readMarks_of_reads
        (.atom (readAtom_set opening caret names closing _) (readRepetition_append times starts))
        read
      simpa [Operand.tokens, Operand.item, Outline.Item.marks] using whole

/-- The tokens of a series are read as the marks of its items. -/
theorem Series.readMarks_append (opened : List Nat) (groups : Nat) : ∀ (series : Series)
    {rest : Tokens} {marks : List (Mark Atom (Option Repetition))},
      StartsIn [.rightParen, .pipe] rest →
      readMarks opened (groups + series.groups) rest = .ok marks →
        readMarks opened groups (series.tokens ++ rest) =
          .ok (Outline.Item.marksOfAll (series.items groups) ++ marks)
  | .nil, _, _, _, read => read
  | .cons operand times more, rest, marks, starts, read => by
      rw [Series.groups, ← Nat.add_assoc] at read
      have later := more.readMarks_append opened (groups + operand.groups) starts read
      have whole := operand.readMarks_append opened groups times (more.startsIn starts) later
      simpa only [Series.tokens, Series.items, Outline.Item.marksOfAll, List.append_assoc]
        using whole

/-- What is derived is read as its outline, in front of anything that can't
belong to it. -/
theorem Choice.readMarks_append (opened : List Nat) (groups : Nat) : ∀ (choice : Choice)
    {rest : Tokens} {marks : List (Mark Atom (Option Repetition))},
      StartsIn [.rightParen] rest →
      readMarks opened (groups + choice.groups) rest = .ok marks →
        readMarks opened groups (choice.tokens ++ rest) =
          .ok ((choice.outline groups).marks ++ marks)
  | .only series, rest, marks, starts, read =>
      series.readMarks_append opened groups (starts.mono (by decide)) read
  | .either series bar alternate, rest, marks, starts, read => by
      rw [Choice.groups, ← Nat.add_assoc] at read
      have later := alternate.readMarks_append opened (groups + series.groups) starts read
      have barred : readMarks opened (groups + series.groups)
          (bar.token :: (alternate.tokens ++ rest)) = .ok (.bar :: _) :=
        readMarks_of_reads (.bar rfl) later
      have whole := series.readMarks_append opened groups (startsIn_cons.mpr (by decide)) barred
      simpa only [Choice.tokens, Choice.outline, Outline.marks, List.append_assoc,
        List.cons_append] using whole

end

/-- All of what is derived is read as its outline. -/
theorem Choice.readMarks_tokens (choice : Choice) :
    readMarks [] 0 choice.tokens = .ok (choice.outline 0).marks := by
  have ends : readMarks [] (0 + choice.groups) [] = .ok [] := reader.nil_iff.mpr ⟨rfl, rfl⟩
  have whole := choice.readMarks_append [] 0 (by simp [StartsIn]) ends
  simpa only [List.append_nil] using whole

end TextGrammar.Expression
