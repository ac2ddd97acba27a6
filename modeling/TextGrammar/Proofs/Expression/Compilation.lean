import TextGrammar.Proofs.Expression.Acceptance
import TextGrammar.Proofs.Expression.Digits

/-!
What expressions are compiled to.

Acceptance and reading meet here. What a derivation within bounds was read to is
settled to the sequence that the derivation stands for (`Choice.settle_outline`),
so compiling a source comes to an expression exactly if the source has a
derivation within bounds, and then to the expression of that derivation, which is
the only one (`compile_eq_ok_iff_derives`).
-/

namespace TextGrammar

theorem writtenInDigits_append {front back : List (Token Symbol)} :
    WrittenInDigits (front ++ back) ↔ WrittenInDigits front ∧ WrittenInDigits back :=
  List.forall_mem_append

theorem writtenInDigits_cons {token : Token Symbol} {tokens : List (Token Symbol)} :
    WrittenInDigits (token :: tokens) ↔ WrittenInDigits [token] ∧ WrittenInDigits tokens :=
  @writtenInDigits_append [token] tokens

namespace Expression

/-! ### Settling what is derived -/

/-- A bound that is written in digits is the number that they denote. -/
theorem Leaf.bound_eq_ok {leaf : Leaf .number} (written : WrittenInDigits [leaf.token])
    (small : leaf.number ≤ maxNumber) (offset : Nat) :
    bound leaf.value offset = .ok leaf.number := by
  obtain ⟨nonempty, digits⟩ := written leaf.token (List.mem_singleton_self _) rfl
  exact bound_eq_ok_iff.mpr (number?_eq_some_iff.mpr ⟨nonempty, digits, rfl, small⟩)

theorem Times.quantifier_repetition (times : Times) (written : WrittenInDigits times.tokens)
    (inBounds : times.InBounds) : times.repetition.quantifier = .ok times.quantifier := by
  cases times with
  | star sign | plus sign | question sign => rfl
  | exactly opening bound closing =>
      obtain ⟨_, written⟩ := writtenInDigits_cons.mp written
      have number := Leaf.bound_eq_ok (writtenInDigits_cons.mp written).1 inBounds bound.index
      simp only [Times.repetition, Leaf.token, Repetition.quantifier, number]
      rfl
  | atLeast opening min comma closing =>
      obtain ⟨_, written⟩ := writtenInDigits_cons.mp written
      have number := Leaf.bound_eq_ok (writtenInDigits_cons.mp written).1 inBounds min.index
      simp only [Times.repetition, Leaf.token, Repetition.quantifier, number]
      rfl
  | between opening min comma max closing =>
      obtain ⟨_, written⟩ := writtenInDigits_cons.mp written
      obtain ⟨first, written⟩ := writtenInDigits_cons.mp written
      obtain ⟨_, written⟩ := writtenInDigits_cons.mp written
      obtain ⟨second, _⟩ := writtenInDigits_cons.mp written
      obtain ⟨ordered, small⟩ := inBounds
      have low := Leaf.bound_eq_ok first (Nat.le_trans ordered small) min.index
      have high := Leaf.bound_eq_ok second small min.index
      simp only [Times.repetition, Leaf.token, Repetition.quantifier, low, high, bind, Except.bind,
        Quantifier.between?, if_pos ordered]
      rfl

theorem Times.quantifier?_repetition {times : Option Times}
    (written : WrittenInDigits (Times.tokens? times))
    (inBounds : ∀ t, times = some t → t.InBounds) :
    quantifier? (times.map Times.repetition) = .ok (times.map Times.quantifier) := by
  cases times with
  | none => rfl
  | some times =>
      have settled := times.quantifier_repetition written (inBounds times rfl)
      simp only [Option.map_some, quantifier?, settled]
      rfl

theorem Times.quantified (kind : Kind) (times : Option Times) :
    Node.quantified kind (times.map Times.quantifier) = ⟨kind, Times.stored times⟩ := by
  cases times with
  | none => rfl
  | some times =>
      by_cases once : times.quantifier = ⟨1, some 1⟩ <;>
        simp [Node.quantified, Times.stored, Quantifier.isOnce, Quantifier.once, once]

mutual

theorem Operand.settle_item (opened : Nat) : ∀ (operand : Operand) (times : Option Times),
    WrittenInDigits operand.tokens → operand.InBounds →
      WrittenInDigits (Times.tokens? times) → (∀ t, times = some t → t.InBounds) →
        Outline.settleItem Atom.kind quantifier?
          (operand.item opened (times.map Times.repetition)) =
            .ok ⟨operand.kind opened, Times.stored times⟩
  | .name name, times, _, _, timesWritten, timesInBounds => by
      have repeats := Times.quantifier?_repetition timesWritten timesInBounds
      rw [Operand.item, Outline.settleItem, repeats, Operand.kind, ← Times.quantified]
      rfl
  | .group opening body closing, times, written, inBounds, timesWritten, timesInBounds => by
      have repeats := Times.quantifier?_repetition timesWritten timesInBounds
      obtain ⟨_, written⟩ := writtenInDigits_cons.mp written
      have inside := body.settle_outline (opened + 1) (writtenInDigits_append.mp written).1
        (by simpa only [Operand.InBounds] using inBounds)
      rw [Operand.item, Outline.settleItem, repeats, Operand.kind, ← Times.quantified]
      simp only [inside, bind, Except.bind]
      rfl
  | .set opening caret names closing, times, _, _, timesWritten, timesInBounds => by
      have repeats := Times.quantifier?_repetition timesWritten timesInBounds
      rw [Operand.item, Outline.settleItem, repeats, Atom.kind_set, Operand.kind,
        ← Times.quantified]
      rfl

theorem Series.settle_items (opened : Nat) : ∀ series : Series,
    WrittenInDigits series.tokens → series.InBounds →
      Outline.settleItems Atom.kind quantifier? (series.items opened) =
        .ok (series.nodes opened)
  | .nil, _, _ => rfl
  | .cons operand times rest, written, inBounds => by
      obtain ⟨ofOperand, written⟩ := writtenInDigits_append.mp written
      obtain ⟨ofTimes, ofRest⟩ := writtenInDigits_append.mp written
      obtain ⟨operandInBounds, timesInBounds, restInBounds⟩ := inBounds
      rw [Series.items, Outline.settleItems,
        operand.settle_item opened times ofOperand operandInBounds ofTimes timesInBounds,
        rest.settle_items (opened + operand.groups) ofRest restInBounds]
      rfl

/-- What was read from a derivation within bounds is settled to its sequence. -/
theorem Choice.settle_outline (opened : Nat) : ∀ choice : Choice,
    WrittenInDigits choice.tokens → choice.InBounds →
      Outline.settle Atom.kind quantifier? (choice.outline opened) =
        .ok (choice.sequence opened)
  | .only series, written, inBounds => by
      rw [Choice.outline, Outline.settle, series.settle_items opened written inBounds]
      rfl
  | .either series bar alternate, written, inBounds => by
      obtain ⟨ofSeries, written⟩ := writtenInDigits_append.mp written
      obtain ⟨_, ofAlternate⟩ := writtenInDigits_cons.mp written
      obtain ⟨seriesInBounds, alternateInBounds⟩ := inBounds
      rw [Choice.outline, Outline.settle, series.settle_items opened ofSeries seriesInBounds,
        alternate.settle_outline (opened + series.groups) ofAlternate alternateInBounds]
      rfl

end

mutual

theorem Operand.groups_item (opened : Nat) (repetition : Option Repetition) :
    ∀ operand : Operand, Mark.groups (operand.item opened repetition).marks = operand.groups
  | .name _ => rfl
  | .group _ body _ => by
      have inside := body.groups_outline (opened + 1)
      simpa [Operand.item, Operand.groups, Outline.Item.marks, Mark.groups] using inside
  | .set _ _ _ _ => rfl

theorem Series.groups_items (opened : Nat) : ∀ series : Series,
    Mark.groups (Outline.Item.marksOfAll (series.items opened)) = series.groups
  | .nil => rfl
  | .cons operand times rest => by
      have first := operand.groups_item opened (times.map Times.repetition)
      have later := rest.groups_items (opened + operand.groups)
      unfold Mark.groups at first later ⊢
      rw [Series.items, Outline.Item.marksOfAll, List.countP_append, first, later, Series.groups]

/-- Reading what is derived opens the groups of the derivation. -/
theorem Choice.groups_outline (opened : Nat) : ∀ choice : Choice,
    Mark.groups (choice.outline opened).marks = choice.groups
  | .only series => by
      rw [Choice.outline, Outline.marks, series.groups_items, Choice.groups]
  | .either series bar alternate => by
      have first := series.groups_items opened
      have later := alternate.groups_outline (opened + series.groups)
      unfold Mark.groups at first later ⊢
      rw [Choice.outline, Outline.marks, List.countP_append, first,
        List.countP_cons_of_neg (by simp), later, Choice.groups]

end

/-! ### Accepted sources -/

/-- The tokens of a source are those that the lexer of expressions finds. -/
theorem tokenize_eq_ok_iff {source : String} {tokens : Tokens} :
    tokenize source = .ok tokens ↔ expressionLexer.tokenize source.toList = .ok tokens := by
  unfold tokenize Lexer.tokenize
  split
  · rename_i ends
    simp only [ends, Except.ok.injEq]
  · rename_i ends
    simp only [ends, reduceCtorEq]

theorem writtenInDigits_of_tokenize {source : String} {tokens : Tokens}
    (tokenized : tokenize source = .ok tokens) : WrittenInDigits tokens := by
  have written := writtenInDigits_of_tokensFrom source.toList 0
  unfold tokenize Lexer.tokens at tokenized
  split at tokenized
  · rename_i found ends
    cases tokenized
    rwa [ends] at written
  · cases tokenized

/-- The expression of a derivation of a source is what the source compiles to. -/
theorem compile_of_derives {source : String} {choice : Choice}
    (tokenized : tokenize source = .ok choice.tokens) (inBounds : choice.InBounds) :
    compile source = .ok (choice.expression source) := by
  have settled := choice.settle_outline 0 (writtenInDigits_of_tokenize tokenized) inBounds
  rw [compile, Expression.read, tokenized]
  simp only [bind, Except.bind, choice.readMarks_tokens, Outline.ofMarks_marks, settled,
    choice.groups_outline]
  rfl

/-- A source that compiles has a derivation within bounds. -/
theorem exists_choice_of_compile_eq_ok {source : String} {expression : Expression}
    (compiled : compile source = .ok expression) :
    ∃ choice : Choice, tokenize source = .ok choice.tokens ∧ choice.InBounds := by
  obtain ⟨tokens, tokenized, marked⟩ := bind_eq_ok_iff.mp (mapError_eq_ok_iff.mp compiled)
  obtain ⟨marks, read, settled⟩ := bind_eq_ok_iff.mp marked
  obtain ⟨root, ofMarks, _⟩ := bind_eq_ok_iff.mp settled
  -- All groups that were read are closed, so nesting has lost none of the marks.
  have written : readMarks [] 0 tokens = .ok ((Outline.ofMarks marks).marks ++ []) := by
    rw [List.append_nil, Outline.marks_ofMarks (reader.closes read), read]
  obtain ⟨choice, rest, groups, rfl, inBounds, ends⟩ := exists_choice_of_readMarks _ ofMarks written
  -- No marks are left to read behind the derivation, and so no tokens.
  obtain ⟨_, rfl⟩ := reader.nil_iff.mp ends
  exact ⟨choice, by rw [tokenized, List.append_nil], inBounds⟩

/-- A source compiles exactly if its tokens have a derivation within bounds, and
then to the expression of the derivation, which is the only one of its tokens.
The expression has a group for every opening parenthesis, numbered in the order
in which they are met, and refers to the names of the source in their order. Any
other source is an invalid expression. -/
theorem compile_eq_ok_iff_derives (source : String) :
    (∀ expression, compile source = .ok expression ↔ ∃ choice : Choice,
      expressionLexer.tokenize source.toList = .ok choice.tokens ∧ choice.InBounds ∧
        expression = choice.expression source) ∧
    (∀ choice choice' : Choice, choice.tokens = choice'.tokens → choice = choice') ∧
    (∀ expression tokens, compile source = .ok expression →
      expressionLexer.tokenize source.toList = .ok tokens →
        expression.groups = tokens.countP (·.kind = .leftParen) ∧
          expression.root.groupNumbers = List.range' 1 expression.groups ∧
            expression.references = identifiers tokens) ∧
    ((¬ ∃ choice : Choice,
        expressionLexer.tokenize source.toList = .ok choice.tokens ∧ choice.InBounds) →
      ∃ message offset, compile source = .error (.invalidExpression message source offset)) := by
  have accepts : ∀ expression, compile source = .ok expression ↔ ∃ choice : Choice,
      expressionLexer.tokenize source.toList = .ok choice.tokens ∧ choice.InBounds ∧
        expression = choice.expression source := by
    intro expression
    constructor
    · intro compiled
      obtain ⟨choice, tokenized, inBounds⟩ := exists_choice_of_compile_eq_ok compiled
      have derived := compile_of_derives tokenized inBounds
      exact ⟨choice, tokenize_eq_ok_iff.mp tokenized, inBounds,
        Except.ok.inj (compiled.symm.trans derived)⟩
    · rintro ⟨choice, tokenized, inBounds, rfl⟩
      exact compile_of_derives (tokenize_eq_ok_iff.mpr tokenized) inBounds
  refine ⟨accepts, fun _ _ => Choice.eq_of_tokens_eq, ?_, ?_⟩
  · intro expression tokens compiled tokenized
    obtain ⟨choice, derives, _, rfl⟩ := (accepts expression).mp compiled
    obtain rfl := Except.ok.inj (tokenized.symm.trans derives)
    exact ⟨choice.countP_tokens.symm, choice.groupNumbers 0, choice.references 0⟩
  · intro underivable
    cases ends : read source with
    | error fault =>
        refine ⟨fault.content.message, fault.offset, ?_⟩
        rw [compile, ends]
        rfl
    | ok expression =>
        obtain ⟨choice, tokenized, inBounds, _⟩ :=
          (accepts expression).mp (mapError_eq_ok_iff.mpr ends)
        exact absurd ⟨choice, tokenized, inBounds⟩ underivable

/-- The derivation of a source with every rule of the grammar:
`a (b | [^c d]{2,3})+ | e{1}`. -/
def Choice.sample : Choice :=
  .either
    (.cons (.name ⟨"a", 0⟩) none
      (.cons
        (.group ⟨"(", 2⟩
          (.either (.cons (.name ⟨"b", 3⟩) none .nil) ⟨"|", 5⟩
            (.only (.cons
              (.set ⟨"[", 7⟩ (some ⟨"^", 8⟩) [⟨"c", 9⟩, ⟨"d", 11⟩] ⟨"]", 12⟩)
              (some (.between ⟨"\x7b", 13⟩ ⟨"2", 14⟩ ⟨",", 15⟩ ⟨"3", 16⟩ ⟨"\x7d", 17⟩)) .nil)))
          ⟨")", 18⟩)
        (some (.plus ⟨"+", 19⟩)) .nil))
    ⟨"|", 21⟩
    (.only (.cons (.name ⟨"e", 23⟩) (some (.exactly ⟨"\x7b", 24⟩ ⟨"1", 25⟩ ⟨"\x7d", 26⟩)) .nil))

/-- The sample compiles; bounds in the wrong order have no derivation. -/
theorem sample_compile_eq_ok_iff_derives :
    expressionLexer.tokenize "a (b | [^c d]\x7b2,3\x7d)+ | e\x7b1\x7d".toList =
        .ok Choice.sample.tokens ∧
      Choice.sample.InBounds ∧
      compile "a (b | [^c d]\x7b2,3\x7d)+ | e\x7b1\x7d" = .ok
        ⟨"a (b | [^c d]\x7b2,3\x7d)+ | e\x7b1\x7d", .either
          [.one (.reference "a"),
            ⟨.group 1 (.either [.one (.reference "b")]
              (.only [⟨.set [.one (.reference "c"), .one (.reference "d")] true,
                some ⟨2, some 3⟩⟩])), some ⟨1, none⟩⟩]
          (.only [.one (.reference "e")]), 1⟩ ∧
      ∃ message offset, compile "a\x7b2,1\x7d" =
        .error (.invalidExpression message "a\x7b2,1\x7d" offset) := by
  have lexed : expressionLexer.tokens "a (b | [^c d]\x7b2,3\x7d)+ | e\x7b1\x7d".toList =
      (Choice.sample.tokens, none) := by decide +kernel
  have tokenized : expressionLexer.tokenize "a (b | [^c d]\x7b2,3\x7d)+ | e\x7b1\x7d".toList =
      .ok Choice.sample.tokens := by rw [Lexer.tokenize, lexed]
  have inBounds : Choice.sample.InBounds := by
    simp only [Choice.sample, Choice.InBounds, Series.InBounds, Operand.InBounds, Times.InBounds,
      Leaf.number, Option.some.injEq, forall_eq', reduceCtorEq, false_implies, implies_true,
      true_and, and_true]
    decide +kernel
  obtain ⟨accepts, _⟩ := compile_eq_ok_iff_derives "a (b | [^c d]\x7b2,3\x7d)+ | e\x7b1\x7d"
  obtain ⟨accepts', _, _, otherwise⟩ := compile_eq_ok_iff_derives "a\x7b2,1\x7d"
  refine ⟨tokenized, inBounds, (accepts _).mpr ⟨Choice.sample, tokenized, inBounds, rfl⟩,
    otherwise ?_⟩
  rintro ⟨choice, derives, bounded⟩
  have rejected : (compile "a\x7b2,1\x7d").toOption.isNone = true := by decide +kernel
  rw [(accepts' _).mpr ⟨choice, derives, bounded, rfl⟩] at rejected
  cases rejected

end Expression

end TextGrammar
