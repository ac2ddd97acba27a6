import Mathlib.Logic.Relation
import TextGrammar.Proofs.Expression.Compilation
import TextGrammar.Proofs.Walk.Renumbering
import TextGrammar.Proofs.Walk.Sugar

/-!
Expressions written with groups and alternatives in place of sets.

`A B` may be written as `(A B)` and `[A B]` as `(A | B)`, anywhere in an expression and as
often as one likes. `Choice.Rewrites` says so of derivations, wherever their tokens stand
in the source. The expression that comes out of it compiles if the old one does, refers to
the same names (`Choice.Rewrites.identifiers`), and its walks resemble those of the old one
(`Choice.Rewrites.walk`).
-/

namespace TextGrammar.Expression

/-! ### Rewriting -/

def Series.append : Series → Series → Series
  | .nil, later => later
  | .cons operand times rest, later => .cons operand times (rest.append later)

/-- The alternatives are the names, one by one. -/
inductive Choice.Lists : List String → Choice → Prop where
  | last (name : Leaf .identifier) : Lists [name.value] (.only (.cons (.name name) none .nil))
  | more (name : Leaf .identifier) (bar : Leaf .pipe) {names : List String} {others : Choice} :
      Lists names others →
      Lists (name.value :: names) (.either (.cons (.name name) none .nil) bar others)

mutual

/-- The second operand is the first one, rewritten: a set may be written as a group that
lists its names. -/
inductive Operand.Rewrites : Operand → Operand → Prop where
  | name {name name' : Leaf .identifier} : name.value = name'.value →
      Operand.Rewrites (.name name) (.name name')
  | group {opening opening' : Leaf .leftParen} {body body' : Choice}
      {closing closing' : Leaf .rightParen} : Choice.Rewrites body body' →
      Operand.Rewrites (.group opening body closing) (.group opening' body' closing')
  | set {opening opening' : Leaf .leftBracket} {caret caret' : Option (Leaf .caret)}
      {names names' : List (Leaf .identifier)} {closing closing' : Leaf .rightBracket} :
      caret.isSome = caret'.isSome → names.map Leaf.value = names'.map Leaf.value →
      Operand.Rewrites (.set opening caret names closing) (.set opening' caret' names' closing')
  | listed {opening : Leaf .leftBracket} {names : List (Leaf .identifier)}
      {closing : Leaf .rightBracket} {opening' : Leaf .leftParen} {body : Choice}
      {closing' : Leaf .rightParen} : Choice.Lists (names.map Leaf.value) body →
      Operand.Rewrites (.set opening none names closing) (.group opening' body closing')

/-- The second series is the first one, rewritten: operands one after another may be
written in a group. -/
inductive Series.Rewrites : Series → Series → Prop where
  | nil : Series.Rewrites .nil .nil
  | cons {operand operand' : Operand} {times times' : Option Times} {rest rest' : Series} :
      Operand.Rewrites operand operand' →
      times.map Times.quantifier = times'.map Times.quantifier → Series.Rewrites rest rest' →
      Series.Rewrites (.cons operand times rest) (.cons operand' times' rest')
  | grouped {front body rest rest' : Series} {opening : Leaf .leftParen}
      {closing : Leaf .rightParen} : Series.Rewrites front body → Series.Rewrites rest rest' →
      Series.Rewrites (front.append rest) (.cons (.group opening (.only body) closing) none rest')

/-- The second choice is the first one, rewritten. -/
inductive Choice.Rewrites : Choice → Choice → Prop where
  | only {series series' : Series} : Series.Rewrites series series' →
      Choice.Rewrites (.only series) (.only series')
  | either {series series' : Series} {bar bar' : Leaf .pipe} {alternate alternate' : Choice} :
      Series.Rewrites series series' → Choice.Rewrites alternate alternate' →
      Choice.Rewrites (.either series bar alternate) (.either series' bar' alternate')

end

/-! ### Bounds -/

/-- Whether a repetition is within bounds depends on its quantifier alone. -/
theorem Times.inBounds_iff (times : Times) :
    times.InBounds ↔ times.quantifier.min ≤ maxNumber ∧ ∀ max, times.quantifier.max = some max →
      times.quantifier.min ≤ max ∧ max ≤ maxNumber := by
  cases times with
  | star sign | plus sign | question sign =>
      simp [Times.InBounds, Times.quantifier, maxNumber]
  | exactly opening bound closing =>
      simp [Times.InBounds, Times.quantifier]
  | atLeast opening min comma closing => simp [Times.InBounds, Times.quantifier]
  | between opening min comma max closing =>
      simp only [Times.InBounds, Times.quantifier, Option.some.injEq, forall_eq']
      constructor
      · intro both
        exact ⟨Nat.le_trans both.1 both.2, both⟩
      · intro all
        exact all.2

/-- Whether a repetition is in bounds depends on what it asks for only. -/
theorem Times.inBounds_congr {times times' : Option Times}
    (same : times.map Times.quantifier = times'.map Times.quantifier) :
    (∀ t, times = some t → t.InBounds) ↔ ∀ t, times' = some t → t.InBounds := by
  cases times with
  | none =>
      cases times' with
      | none => exact Iff.rfl
      | some times' => cases same
  | some times =>
      cases times' with
      | none => cases same
      | some times' =>
          simp only [Option.map_some, Option.some.injEq] at same
          simp only [Option.some.injEq, forall_eq', Times.inBounds_iff, same]

/-- A series is in bounds if its front and its back are. -/
theorem Series.inBounds_append : ∀ front later : Series,
    (front.append later).InBounds ↔ front.InBounds ∧ later.InBounds
  | .nil, later => by simp only [Series.append, Series.InBounds, true_and]
  | .cons operand times rest, later => by
      simp only [Series.append, Series.InBounds, Series.inBounds_append rest later, and_assoc]

/-- A choice that lists names has no bounds to keep. -/
theorem Choice.Lists.inBounds {names : List String} {choice : Choice}
    (lists : Lists names choice) : choice.InBounds := by
  induction lists with
  | last name => simp [Choice.InBounds, Series.InBounds, Operand.InBounds]
  | more name bar _ ih => simp [Choice.InBounds, Series.InBounds, Operand.InBounds, ih]

mutual

/-- To rewrite an operand changes none of its bounds. -/
theorem Operand.Rewrites.inBounds_iff : ∀ {operand operand' : Operand},
    operand.Rewrites operand' → (operand.InBounds ↔ operand'.InBounds)
  | _, _, .name _ => Iff.rfl
  | _, _, .group body => body.inBounds_iff
  | _, _, .set _ _ => Iff.rfl
  | _, _, .listed lists => ⟨fun _ => lists.inBounds, fun _ => trivial⟩

theorem Series.Rewrites.inBounds_iff : ∀ {series series' : Series},
    series.Rewrites series' → (series.InBounds ↔ series'.InBounds)
  | _, _, .nil => Iff.rfl
  | _, _, .cons operand times rest => by
      simp only [Series.InBounds]
      rw [operand.inBounds_iff, Times.inBounds_congr times, rest.inBounds_iff]
  | _, _, .grouped front rest => by
      rw [Series.inBounds_append, front.inBounds_iff, rest.inBounds_iff]
      simp [Series.InBounds, Operand.InBounds, Choice.InBounds]

/-- What is rewritten is within bounds if and only if it was so before. -/
theorem Choice.Rewrites.inBounds_iff : ∀ {choice choice' : Choice},
    choice.Rewrites choice' → (choice.InBounds ↔ choice'.InBounds)
  | _, _, .only series => series.inBounds_iff
  | _, _, .either series alternate => by
      simp only [Choice.InBounds]
      rw [series.inBounds_iff, alternate.inBounds_iff]

end

/-! ### Names -/

/-- Tokens of a series are those of its front and those of its back. -/
theorem Series.tokens_append : ∀ front later : Series,
    (front.append later).tokens = front.tokens ++ later.tokens
  | .nil, later => rfl
  | .cons operand times rest, later => by
      simp only [Series.append, Series.tokens, Series.tokens_append rest later, List.append_assoc]

/-- The identifiers of a choice that lists names are these names. -/
theorem Choice.Lists.identifiers {names : List String} {choice : Choice}
    (lists : Lists names choice) : identifiers choice.tokens = names := by
  induction lists with
  | last name => simp [Choice.tokens, Series.tokens, Operand.tokens, Times.tokens?]
  | more name bar _ ih =>
      simp [Choice.tokens, Series.tokens, Operand.tokens, Times.tokens?, ih]

/-- The names of a set are those between its brackets. -/
theorem Operand.identifiers_set (opening : Leaf .leftBracket) (caret : Option (Leaf .caret))
    (names : List (Leaf .identifier)) (closing : Leaf .rightBracket) :
    identifiers (Operand.set opening caret names closing).tokens = names.map Leaf.value := by
  cases caret <;> simp [Operand.tokens, identifiers_names]

mutual

/-- To rewrite an operand leaves its identifiers and their order. -/
theorem Operand.Rewrites.identifiers : ∀ {operand operand' : Operand},
    operand.Rewrites operand' → identifiers operand'.tokens = identifiers operand.tokens
  | _, _, .name same => by simp [Operand.tokens, same]
  | _, _, .group body => by simp [Operand.tokens, body.identifiers]
  | _, _, .set _ same => by rw [Operand.identifiers_set, Operand.identifiers_set, same]
  | _, _, .listed lists => by
      rw [Operand.identifiers_set]
      simp [Operand.tokens, lists.identifiers]

theorem Series.Rewrites.identifiers : ∀ {series series' : Series},
    series.Rewrites series' → identifiers series'.tokens = identifiers series.tokens
  | _, _, .nil => rfl
  | _, _, .cons operand _ rest => by
      simp [Series.tokens, operand.identifiers, identifiers_times, rest.identifiers]
  | _, _, .grouped front rest => by
      simp [Series.tokens_append, Series.tokens, Operand.tokens, Choice.tokens, Times.tokens?,
        front.identifiers, rest.identifiers]

/-- What is rewritten refers to the same names in the same order. -/
theorem Choice.Rewrites.identifiers : ∀ {choice choice' : Choice},
    choice.Rewrites choice' → identifiers choice'.tokens = identifiers choice.tokens
  | _, _, .only series => series.identifiers
  | _, _, .either series alternate => by
      simp [Choice.tokens, series.identifiers, alternate.identifiers]

end

/-! ### Walks -/

/-- The groups of the back of a series are numbered after those of its front. -/
theorem Series.nodes_append (opened : Nat) : ∀ front later : Series,
    (front.append later).nodes opened = front.nodes opened ++ later.nodes (opened + front.groups)
  | .nil, later => by simp [Series.append, Series.nodes, Series.groups]
  | .cons operand times rest, later => by
      simp only [Series.append, Series.nodes, Series.nodes_append _ rest later, Series.groups,
        List.cons_append, Nat.add_assoc]

/-- A set is made of references to its names. -/
theorem Operand.kind_set (opened : Nat) (opening : Leaf .leftBracket)
    (caret : Option (Leaf .caret)) (names : List (Leaf .identifier))
    (closing : Leaf .rightBracket) :
    (Operand.set opening caret names closing).kind opened =
      .set ((names.map Leaf.value).map fun name => .one (.reference name)) caret.isSome := by
  rw [Operand.kind, List.map_map]
  rfl

theorem Times.stored_congr {times times' : Option Times}
    (same : times.map Times.quantifier = times'.map Times.quantifier) :
    Times.stored times = Times.stored times' := by
  cases times <;> cases times' <;> simp_all [Times.stored]

/-- Names that are listed are the alternatives of one node each. -/
theorem Choice.Lists.sequence {names : List String} {choice : Choice} (lists : Lists names choice)
    (opened : Nat) : ∃ first others,
      names.map (fun name => Node.one (.reference name)) = first :: others ∧
        choice.sequence opened = Sequence.choice first others := by
  induction lists generalizing opened with
  | last name => exact ⟨_, [], rfl, rfl⟩
  | more name bar lists ih =>
      obtain ⟨first, others, same, spelled⟩ := ih opened
      refine ⟨_, first :: others, by rw [List.map_cons, same], ?_⟩
      rw [Sequence.choice, ← spelled]
      rfl

theorem Kind.record_trees (kind : Kind) (start stop : Nat) (trace : Trace) :
    (kind.record start stop trace).trees = trace.trees := by
  unfold Kind.record
  cases kind.group? <;> rfl

section Walks

variable {ε σ : Type} {setting : Setting ε σ}

theorem framed_sameTrees : Framed SameTrees :=
  fun _ _ output same => congrArg (output.trees.reverse ++ ·) same

theorem absorbs_sameTrees (number : Nat) : Absorbs number SameTrees SameTrees :=
  ⟨id, fun _ _ same => same⟩

/-- Where references that fail leave nothing, a kind that fails leaves the same trees. -/
theorem forgets_sameTrees (tidy : setting.Tidy) : setting.Forgets SameTrees := by
  intro kind offset trace trace' state here failed
  rw [kind.walk_tidy tidy offset trace state failed]
  exact here

-- With a group more or less the groups behind it have other numbers, so both sides begin to
-- count anywhere.
mutual

/-- An operand and what it is rewritten to are walked to the same end, with the same
trees. -/
theorem Operand.Rewrites.walk (oblivious : setting.Oblivious) (tidy : setting.Tidy) :
    ∀ {operand operand' : Operand}, operand.Rewrites operand' →
      ∀ (opened opened' offset : Nat) (state : σ) {trace trace' : Trace},
        SameTrees trace trace' →
        ((operand.kind opened).walk setting offset trace state).Concurs SameTrees
          ((operand'.kind opened').walk setting offset trace' state)
  | _, _, .name same, opened, opened', offset, state, trace, trace', here => by
      rw [Operand.kind, Operand.kind, same]
      exact (Kind.walk_oblivious oblivious _ offset state).concurs framed_sameTrees here
  | _, _, .group body, opened, opened', offset, state, trace, trace', here => by
      rw [Operand.kind, Operand.kind, Kind.walk, Kind.walk]
      exact body.walk oblivious tidy (opened + 1) (opened' + 1) offset state here
  | _, _, .set caret names, opened, opened', offset, state, trace, trace', here => by
      rw [Operand.kind_set, Operand.kind_set, caret, names]
      exact (Kind.walk_oblivious oblivious _ offset state).concurs framed_sameTrees here
  | _, _, .listed lists, opened, opened', offset, state, trace, trace', here => by
      obtain ⟨first, others, items, alternatives⟩ := lists.sequence (opened' + 1)
      rw [Operand.kind_set, Operand.kind, items, alternatives, Option.isSome_none, Kind.walk,
        Kind.walk]
      apply Node.walkAny_concurs_choice oblivious framed_sameTrees (forgets_sameTrees tidy) offset
        first others _ state here
      intro item mem
      rw [← items] at mem
      obtain ⟨name, _, rfl⟩ := List.mem_map.mp mem
      exact ⟨rfl, rfl⟩

/-- A series and what it is rewritten to are walked to the same end, with the same trees. -/
theorem Series.Rewrites.walk (oblivious : setting.Oblivious) (tidy : setting.Tidy) :
    ∀ {series series' : Series}, series.Rewrites series' →
      ∀ (opened opened' offset : Nat) (state : σ) {trace trace' : Trace},
        SameTrees trace trace' →
        (Node.walkAll setting (series.nodes opened) offset trace state).Concurs SameTrees
          (Node.walkAll setting (series'.nodes opened') offset trace' state)
  | _, _, .nil, opened, opened', offset, state, trace, trace', here => by
      rw [Series.nodes, Series.nodes, Node.walkAll, Node.walkAll]
      exact ⟨rfl, rfl, fun _ => here⟩
  | _, _, .cons operand times rest, opened, opened', offset, state, trace, trace', here => by
      rw [Series.nodes, Series.nodes, Node.walkAll_cons, Node.walkAll_cons,
        Times.stored_congr times]
      apply Walked.Concurs.andThen _ id
      · intro stop state trace trace' here
        exact rest.walk oblivious tidy _ _ stop state here
      · refine Node.walk_concurs _ (operand.walk oblivious tidy opened opened') id ?_ offset state
          here
        intro trace trace' start stop here
        simpa only [SameTrees, Kind.record_trees] using here
  -- The group takes the trace back to where it begins if its nodes fail, and without it nothing
  -- does; walks that concur leave that open.
  | _, _, .grouped front rest, opened, opened', offset, state, trace, trace', here => by
      rw [Series.nodes_append, Series.nodes, Node.walkAll_append, Node.walkAll_cons]
      apply Walked.Concurs.andThen _ id
      · intro stop state trace trace' here
        exact rest.walk oblivious tidy _ _ stop state here
      · exact Node.walkAll_concurs_group (front.walk oblivious tidy _ _ offset state here)
          (absorbs_sameTrees _)

/-- The walks of what is rewritten concur with those of what was there before. -/
theorem Choice.Rewrites.walk (oblivious : setting.Oblivious) (tidy : setting.Tidy) :
    ∀ {choice choice' : Choice}, choice.Rewrites choice' →
      ∀ (opened opened' offset : Nat) (state : σ) {trace trace' : Trace},
        SameTrees trace trace' →
        ((choice.sequence opened).walk setting offset trace state).Concurs SameTrees
          ((choice'.sequence opened').walk setting offset trace' state)
  | _, _, .only series, opened, opened', offset, state, trace, trace', here => by
      rw [Choice.sequence, Choice.sequence, Sequence.walk_only, Sequence.walk_only]
      apply (series.walk oblivious tidy opened opened' offset state here).orElse
      intro _
      exact ⟨rfl, rfl, fun unfailed => absurd rfl unfailed⟩
  | _, _, .either series alternate, opened, opened', offset, state, trace, trace', here => by
      rw [Choice.sequence, Choice.sequence, Sequence.walk_either, Sequence.walk_either]
      apply (series.walk oblivious tidy opened opened' offset state here).orElse
      intro _
      exact alternate.walk oblivious tidy _ _ offset _ here

end

end Walks

/-! ### Sources -/

/-- Derivations that stand for expressions which are used alike. -/
structure Choice.Equivalent (choice choice' : Choice) : Prop where
  inBounds_iff : choice.InBounds ↔ choice'.InBounds
  identifiers : identifiers choice'.tokens = identifiers choice.tokens
  walk : ∀ {ε σ : Type} {setting : Setting ε σ}, setting.Oblivious → setting.Tidy →
    ∀ offset trace state,
      ((choice.sequence 0).walk setting offset trace state).Resembles
        ((choice'.sequence 0).walk setting offset trace state)

/-- A choice is equivalent to what it is rewritten to. -/
theorem Choice.Rewrites.equivalent {choice choice' : Choice} (rewrites : choice.Rewrites choice') :
    choice.Equivalent choice' where
  inBounds_iff := rewrites.inBounds_iff
  identifiers := rewrites.identifiers
  walk := by
    intro ε σ setting oblivious tidy offset trace state
    have here : SameTrees trace trace := rfl
    exact .of_concurs (rewrites.walk oblivious tidy 0 0 offset state here)
      (Sequence.walk_tidy setting offset trace _ state)
      (Sequence.walk_tidy setting offset trace _ state)

/-- However often is rewritten, and back, the expressions are used alike. -/
theorem Choice.equivalent_of_eqvGen {choice choice' : Choice}
    (rewritten : Relation.EqvGen Choice.Rewrites choice choice') : choice.Equivalent choice' := by
  induction rewritten with
  | rel _ _ rewrites => exact rewrites.equivalent
  | refl _ => exact ⟨Iff.rfl, rfl, fun _ _ _ _ _ => .refl _⟩
  | symm _ _ _ ih =>
      exact ⟨ih.inBounds_iff.symm, ih.identifiers.symm, fun oblivious tidy offset trace state =>
        (ih.walk oblivious tidy offset trace state).symm⟩
  | trans _ _ _ _ _ ih ih' =>
      exact ⟨ih.inBounds_iff.trans ih'.inBounds_iff, ih'.identifiers.trans ih.identifiers,
        fun oblivious tidy offset trace state => (ih.walk oblivious tidy offset trace state).trans
          (ih'.walk oblivious tidy offset trace state)⟩

/-- The second source is the first one, rewritten: `A B` to `(A B)` and `[A B]` to
`(A | B)` or back, anywhere, and with other whitespace. -/
def Rewritten (source source' : String) : Prop :=
  ∃ choice choice' : Choice, tokenize source = .ok choice.tokens ∧
    tokenize source' = .ok choice'.tokens ∧ Relation.EqvGen Choice.Rewrites choice choice'

/-- A source that is rewritten compiles if it did before, to an expression that refers
to the same names and whose walks resemble those of the old one. -/
theorem exists_compile_of_rewritten {source source' : String} {expression : Expression}
    (compiled : compile source = .ok expression) (rewritten : Rewritten source source') :
    ∃ expression', compile source' = .ok expression' ∧
      expression'.references = expression.references ∧
      ∀ {ε σ : Type} {setting : Setting ε σ}, setting.Oblivious → setting.Tidy →
        ∀ offset trace state, (expression.root.walk setting offset trace state).Resembles
          (expression'.root.walk setting offset trace state) := by
  obtain ⟨choice, choice', tokenized, tokenized', eqv⟩ := rewritten
  obtain ⟨found, derives, inBounds⟩ := exists_choice_of_compile_eq_ok compiled
  obtain rfl := Choice.eq_of_tokens_eq (Except.ok.inj (tokenized.symm.trans derives))
  obtain rfl := Except.ok.inj (compiled.symm.trans (compile_of_derives derives inBounds))
  have equivalent := Choice.equivalent_of_eqvGen eqv
  refine ⟨_, compile_of_derives tokenized' (equivalent.inBounds_iff.mp inBounds), ?_,
    equivalent.walk⟩
  exact (choice'.references 0).trans (equivalent.identifiers.trans (choice.references 0).symm)

/-- The derivation of `A B [A B]*`. -/
def Choice.sugared : Choice :=
  .only (.cons (.name ⟨"A", 0⟩) none (.cons (.name ⟨"B", 2⟩) none
    (.cons (.set ⟨"[", 4⟩ none [⟨"A", 5⟩, ⟨"B", 7⟩] ⟨"]", 8⟩) (some (.star ⟨"*", 9⟩)) .nil)))

/-- The derivation of `(A B) (A | B)*`. -/
def Choice.unsugared : Choice :=
  .only (.cons
    (.group ⟨"(", 0⟩
      (.only (.cons (.name ⟨"A", 1⟩) none (.cons (.name ⟨"B", 3⟩) none .nil))) ⟨")", 4⟩)
    none
    (.cons
      (.group ⟨"(", 6⟩
        (.either (.cons (.name ⟨"A", 7⟩) none .nil) ⟨"|", 9⟩
          (.only (.cons (.name ⟨"B", 11⟩) none .nil))) ⟨")", 12⟩)
      (some (.star ⟨"*", 13⟩)) .nil))

/-- The example is rewritten by a group around its names and a group for its set. -/
theorem Choice.rewrites_unsugared : Choice.sugared.Rewrites Choice.unsugared := by
  have pair : Series.Rewrites (.cons (.name ⟨"A", 0⟩) none (.cons (.name ⟨"B", 2⟩) none .nil))
      (.cons (.name ⟨"A", 1⟩) none (.cons (.name ⟨"B", 3⟩) none .nil)) :=
    .cons (.name rfl) rfl (.cons (.name rfl) rfl .nil)
  exact .only (.grouped pair
    (.cons (.listed (.more ⟨"A", 7⟩ ⟨"|", 9⟩ (.last ⟨"B", 11⟩))) rfl .nil))

/-- The sources of the example are those of the two choices. -/
theorem rewritten_unsugared : Rewritten "A B [A B]*" "(A B) (A | B)*" := by
  have lexed : expressionLexer.tokens "A B [A B]*".toList = (Choice.sugared.tokens, none) := by
    decide +kernel
  have lexed' : expressionLexer.tokens "(A B) (A | B)*".toList =
      (Choice.unsugared.tokens, none) := by
    decide +kernel
  refine ⟨.sugared, .unsugared, ?_, ?_, .rel _ _ Choice.rewrites_unsugared⟩
  · rw [tokenize, lexed]
  · rw [tokenize, lexed']

/-- The series `A B{2,1}` at an offset. -/
def Series.reversed (offset : Nat) : Series :=
  .cons (.name ⟨"A", offset⟩) none (.cons (.name ⟨"B", offset + 2⟩)
    (some (.between ⟨"\x7b", offset + 3⟩ ⟨"2", offset + 4⟩ ⟨",", offset + 5⟩ ⟨"1", offset + 6⟩
      ⟨"\x7d", offset + 7⟩)) .nil)

/-- The derivation of `(A B{2,1})`. -/
def Choice.reversedInGroup : Choice :=
  .only (.cons (.group ⟨"(", 0⟩ (.only (.reversed 1)) ⟨")", 9⟩) none .nil)

theorem Choice.rewrites_reversedInGroup :
    (Choice.only (.reversed 0)).Rewrites Choice.reversedInGroup := by
  have pair : Series.Rewrites (.reversed 0) (.reversed 1) :=
    .cons (.name rfl) rfl (.cons (.name rfl) rfl .nil)
  exact .only (.grouped pair .nil)

/-- A source is rewritten whether it compiles or not. -/
theorem rewritten_reversedInGroup : Rewritten "A B\x7b2,1\x7d" "(A B\x7b2,1\x7d)" := by
  have lexed : expressionLexer.tokens "A B\x7b2,1\x7d".toList =
      ((Choice.only (.reversed 0)).tokens, none) := by
    decide +kernel
  have lexed' : expressionLexer.tokens "(A B\x7b2,1\x7d)".toList =
      (Choice.reversedInGroup.tokens, none) := by
    decide +kernel
  refine ⟨.only (.reversed 0), .reversedInGroup, ?_, ?_, .rel _ _ Choice.rewrites_reversedInGroup⟩
  · rw [tokenize, lexed]
  · rw [tokenize, lexed']

end TextGrammar.Expression
