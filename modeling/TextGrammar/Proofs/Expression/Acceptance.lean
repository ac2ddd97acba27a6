import TextGrammar.Proofs.Expression.Reading

/-!
What the compiler of expressions accepts.

Reading lets pass what the grammar of expressions does not: numbers, commas and
carets as atoms, and any contents of sets and braces. Settling refuses all of it.
So what is read and can be settled was derived (`exists_choice_of_readMarks`);
the proof takes the outline apart and finds a derivation for each part, in front
of what is left to read.
-/

namespace TextGrammar.Expression

/-! ### Atoms and repetitions -/

/-- The tokens in a set are taken for items exactly if they are names. -/
theorem items_eq_ok_iff {tokens : Tokens} {nodes : List Node} :
    items tokens = .ok nodes ↔ ∃ names : List (Leaf .identifier),
      tokens = names.map Leaf.token ∧
        nodes = names.map fun name => ⟨.reference name.value, none⟩ := by
  induction tokens generalizing nodes with
  | nil =>
      rw [items]
      constructor
      · intro settled
        cases settled
        exact ⟨[], rfl, rfl⟩
      · rintro ⟨names, none, rfl⟩
        rw [List.map_eq_nil_iff.mp none.symm]
        rfl
  | cons token tokens ih =>
      rw [items]
      constructor
      · intro settled
        obtain ⟨value, named, more⟩ := bind_eq_ok_iff.mp settled
        obtain ⟨rest, ofRest, same⟩ := bind_eq_ok_iff.mp more
        cases same
        obtain ⟨names, rfl, rfl⟩ := ih.mp ofRest
        unfold name at named
        split at named
        · rename_i isName
          obtain ⟨leaf, rfl⟩ := Leaf.exists_of_kind isName
          cases named
          exact ⟨leaf :: names, rfl, rfl⟩
        · cases named
      · rintro ⟨names, whole, rfl⟩
        obtain ⟨leaf, names', rfl, rfl, rfl⟩ := List.map_eq_cons_iff.mp whole.symm
        rw [ih.mpr ⟨names', rfl, rfl⟩]
        rfl

theorem Atom.kind_set (caret : Option (Leaf .caret)) (names : List (Leaf .identifier)) :
    (Atom.set (caret.toList.map Leaf.token ++ names.map Leaf.token)).kind =
      .ok (.set (names.map fun name => ⟨.reference name.value, none⟩) caret.isSome) := by
  have settled := items_eq_ok_iff.mpr ⟨names, rfl, rfl⟩
  cases caret with
  | some caret =>
      simp only [Option.toList_some, List.map_cons, List.map_nil, List.singleton_append, Atom.kind,
        Leaf.kind_token, settled]
      rfl
  | none =>
      cases names with
      | nil => rfl
      | cons name names =>
          simp only [Option.toList_none, List.map_nil, List.nil_append, List.map_cons] at settled ⊢
          simp only [Atom.kind, Leaf.kind_token, settled]
          rfl

/-- A set has a kind only if it holds names, perhaps after a caret. -/
theorem exists_names_of_kind_set {tokens : Tokens} {kind : Kind}
    (settled : (Atom.set tokens).kind = .ok kind) :
    ∃ (caret : Option (Leaf .caret)) (names : List (Leaf .identifier)),
      tokens = caret.toList.map Leaf.token ++ names.map Leaf.token := by
  unfold Atom.kind at settled
  split at settled
  · cases ‹Atom.set tokens = _›
  · rename_i token rest same
    cases same
    split at settled
    · rename_i isCaret
      obtain ⟨caret, rfl⟩ := Leaf.exists_of_kind isCaret
      obtain ⟨nodes, ofRest, _⟩ := bind_eq_ok_iff.mp settled
      obtain ⟨names, rfl, _⟩ := items_eq_ok_iff.mp ofRest
      exact ⟨some caret, names, rfl⟩
    · obtain ⟨nodes, ofTokens, _⟩ := bind_eq_ok_iff.mp settled
      obtain ⟨names, whole, _⟩ := items_eq_ok_iff.mp ofTokens
      exact ⟨none, names, whole⟩
  · rename_i same
    cases same
    exact ⟨none, [], rfl⟩

/-- An atom that has a kind is an operand. -/
theorem exists_operand_of_readAtom {token : Token Symbol} {rest left : Tokens} {atom : Atom}
    {kind : Kind} (one : readAtom token rest = .ok (atom, left)) (settled : atom.kind = .ok kind) :
    ∃ operand : Operand, operand.InBounds ∧ token :: rest = operand.tokens ++ left := by
  unfold readAtom at one
  split at one
  · rename_i isBracket
    obtain ⟨opening, rfl⟩ := Leaf.exists_of_kind isBracket
    split at one
    · cases one
    · rename_i tokens left' read
      cases one
      obtain ⟨_, closing, rfl⟩ := (readContents_eq_ok_iff rfl).mp read
      obtain ⟨caret, names, rfl⟩ := exists_names_of_kind_set settled
      exact ⟨.set opening caret names closing, by simp [Operand.InBounds],
        by simp [Operand.tokens]⟩
  · split at one
    · cases one
      rw [Atom.kind] at settled
      obtain ⟨value, named, _⟩ := bind_eq_ok_iff.mp settled
      unfold name at named
      split at named
      · rename_i isName
        obtain ⟨name, rfl⟩ := Leaf.exists_of_kind isName
        exact ⟨.name name, by simp [Operand.InBounds], rfl⟩
      · cases named
    · cases one

/-- A bound is read exactly if it is a number. -/
theorem bound_eq_ok_iff {digits : String} {offset n : Nat} :
    bound digits offset = .ok n ↔ number? digits.toList = some n := by
  unfold bound
  split <;> simp_all

/-- What stands between braces has a quantifier only if it is one or two bounds,
which are numbers and in order. -/
theorem exists_times_of_bounds (opening : Leaf .leftBrace) (closing : Leaf .rightBrace)
    {tokens : Tokens} {quantifier : Quantifier}
    (settled : (Repetition.bounds opening.index tokens).quantifier = .ok quantifier) :
    ∃ times : Times, times.InBounds ∧
      times.tokens = opening.token :: (tokens ++ [closing.token]) := by
  unfold Repetition.quantifier at settled
  split at settled
  · cases ‹Repetition.bounds _ _ = _›
  · cases ‹Repetition.bounds _ _ = _›
  · cases ‹Repetition.bounds _ _ = _›
  · rename_i n first same
    cases same
    obtain ⟨min, low, _⟩ := bind_eq_ok_iff.mp settled
    obtain ⟨_, _, denotes, small⟩ := number?_eq_some_iff.mp (bound_eq_ok_iff.mp low)
    refine ⟨.exactly opening ⟨n, first⟩ closing, ?_, rfl⟩
    simpa only [Times.InBounds, Leaf.number, denotes] using small
  · rename_i n first comma place same
    cases same
    obtain ⟨min, low, _⟩ := bind_eq_ok_iff.mp settled
    obtain ⟨_, _, denotes, small⟩ := number?_eq_some_iff.mp (bound_eq_ok_iff.mp low)
    refine ⟨.atLeast opening ⟨n, first⟩ ⟨comma, place⟩ closing, ?_, rfl⟩
    simpa only [Times.InBounds, Leaf.number, denotes] using small
  · rename_i n first comma place m second same
    cases same
    obtain ⟨min, low, more⟩ := bind_eq_ok_iff.mp settled
    obtain ⟨max, high, ordered⟩ := bind_eq_ok_iff.mp more
    obtain ⟨_, _, denotesMin, _⟩ := number?_eq_some_iff.mp (bound_eq_ok_iff.mp low)
    obtain ⟨_, _, denotesMax, small⟩ := number?_eq_some_iff.mp (bound_eq_ok_iff.mp high)
    unfold Quantifier.between? at ordered
    refine ⟨.between opening ⟨n, first⟩ ⟨comma, place⟩ ⟨m, second⟩ closing, ?_, rfl⟩
    simp only [Times.InBounds, Leaf.number, denotesMin, denotesMax]
    by_cases inOrder : min ≤ max
    · exact ⟨inOrder, small⟩
    · rw [if_neg inOrder] at ordered
      cases ordered
  · cases settled

/-- A repetition that has a quantifier is a repetition of the grammar, within bounds. -/
theorem exists_times_of_readRepetition {rest left : Tokens} {repetition : Option Repetition}
    {quantifier : Option Quantifier} (read : readRepetition rest = .ok (repetition, left))
    (settled : quantifier? repetition = .ok quantifier) :
    ∃ times, rest = Times.tokens? times ++ left ∧ ∀ t, times = some t → t.InBounds := by
  unfold readRepetition at read
  split at read
  · cases read
    exact ⟨none, rfl, by simp⟩
  · rename_i token left'
    split at read
    · obtain ⟨sign, rfl⟩ := Leaf.exists_of_kind ‹_›
      cases read
      exact ⟨some (.star sign), rfl, by simp [Times.InBounds]⟩
    · obtain ⟨sign, rfl⟩ := Leaf.exists_of_kind ‹_›
      cases read
      exact ⟨some (.plus sign), rfl, by simp [Times.InBounds]⟩
    · obtain ⟨sign, rfl⟩ := Leaf.exists_of_kind ‹_›
      cases read
      exact ⟨some (.question sign), rfl, by simp [Times.InBounds]⟩
    · obtain ⟨opening, rfl⟩ := Leaf.exists_of_kind ‹_›
      split at read
      · cases read
      · rename_i tokens left contents
        cases read
        obtain ⟨_, closing, rfl⟩ := (readContents_eq_ok_iff rfl).mp contents
        obtain ⟨q, ofBounds, _⟩ := bind_eq_ok_iff.mp settled
        obtain ⟨times, inBounds, written⟩ := exists_times_of_bounds opening closing ofBounds
        refine ⟨some times, ?_, by simpa using inBounds⟩
        simp [Times.tokens?, written]
    · cases read
      exact ⟨none, rfl, by simp⟩

/-! ### Derivations of what is read -/

mutual

/-- An item that can be settled was read from an operand and its repetition. -/
theorem exists_operand_of_readMarks : ∀ (item : Outline.Item Atom (Option Repetition))
    {opened : List Nat} {groups : Nat} {tokens : Tokens}
    {marks : List (Mark Atom (Option Repetition))} {node : Node},
    Outline.settleItem Atom.kind quantifier? item = .ok node →
      readMarks opened groups tokens = .ok (item.marks ++ marks) →
        ∃ (operand : Operand) (times : Option Times) (rest : Tokens) (groups' : Nat),
          tokens = operand.tokens ++ (Times.tokens? times ++ rest) ∧ operand.InBounds ∧
            (∀ t, times = some t → t.InBounds) ∧ readMarks opened groups' rest = .ok marks
  | .atom content repetition, opened, groups, tokens, marks, node, settled, read => by
      rw [Outline.settleItem] at settled
      obtain ⟨_, repeats, more⟩ := bind_eq_ok_iff.mp settled
      obtain ⟨_, ofContent, _⟩ := bind_eq_ok_iff.mp more
      obtain ⟨next, step, later⟩ := reads_of_readMarks read
      cases step with
      | atom one repeated =>
          obtain ⟨operand, inBounds, whole⟩ := exists_operand_of_readAtom one ofContent
          obtain ⟨times, rfl, bounded⟩ := exists_times_of_readRepetition repeated repeats
          exact ⟨operand, times, _, groups, whole, inBounds, bounded, later⟩
  | .group number body repetition, opened, groups, tokens, marks, node, settled, read => by
      rw [Outline.settleItem] at settled
      obtain ⟨_, repeats, more⟩ := bind_eq_ok_iff.mp settled
      obtain ⟨_, ofBody, _⟩ := bind_eq_ok_iff.mp more
      -- The marks of a group are an opening, those of its body, and a closing; the
      -- body is derived by induction from what is read in between.
      rw [Outline.Item.marks, List.cons_append, List.append_assoc] at read
      obtain ⟨inside, enters, reads⟩ := reads_of_readMarks read
      cases enters with
      | opening opens =>
          obtain ⟨opening, rfl⟩ := Leaf.exists_of_kind opens.1
          obtain ⟨choice, rest, groups', rfl, inBounds, ends⟩ :=
            exists_choice_of_readMarks body ofBody reads
          obtain ⟨outside, leaves, later⟩ := reads_of_readMarks ends
          cases leaves with
          | closing closes repeated =>
              obtain ⟨closing, rfl⟩ := Leaf.exists_of_kind closes
              obtain ⟨times, rfl, bounded⟩ := exists_times_of_readRepetition repeated repeats
              refine ⟨.group opening choice closing, times, _, groups', ?_, ?_, bounded, later⟩
              · simp [Operand.tokens]
              · simpa only [Operand.InBounds] using inBounds

theorem exists_series_of_readMarks : ∀ (items : List (Outline.Item Atom (Option Repetition)))
    {opened : List Nat} {groups : Nat} {tokens : Tokens}
    {marks : List (Mark Atom (Option Repetition))} {nodes : List Node},
    Outline.settleItems Atom.kind quantifier? items = .ok nodes →
      readMarks opened groups tokens = .ok (Outline.Item.marksOfAll items ++ marks) →
        ∃ (series : Series) (rest : Tokens) (groups' : Nat),
          tokens = series.tokens ++ rest ∧ series.InBounds ∧
            readMarks opened groups' rest = .ok marks
  | [], opened, groups, tokens, marks, nodes, _, read =>
      ⟨.nil, tokens, groups, rfl, by simp [Series.InBounds], read⟩
  | item :: items, opened, groups, tokens, marks, nodes, settled, read => by
      rw [Outline.settleItems] at settled
      obtain ⟨_, ofItem, more⟩ := bind_eq_ok_iff.mp settled
      obtain ⟨_, ofItems, _⟩ := bind_eq_ok_iff.mp more
      rw [Outline.Item.marksOfAll, List.append_assoc] at read
      obtain ⟨operand, times, rest, _, rfl, inBounds, bounded, reads⟩ :=
        exists_operand_of_readMarks item ofItem read
      obtain ⟨series, rest, groups', rfl, seriesInBounds, later⟩ :=
        exists_series_of_readMarks items ofItems reads
      refine ⟨.cons operand times series, rest, groups', ?_, ?_, later⟩
      · simp [Series.tokens]
      · simpa only [Series.InBounds] using ⟨inBounds, bounded, seriesInBounds⟩

/-- An outline that can be settled was read from a derivation within bounds. -/
theorem exists_choice_of_readMarks : ∀ (outline : Outline Atom (Option Repetition))
    {opened : List Nat} {groups : Nat} {tokens : Tokens}
    {marks : List (Mark Atom (Option Repetition))} {sequence : Sequence},
    Outline.settle Atom.kind quantifier? outline = .ok sequence →
      readMarks opened groups tokens = .ok (outline.marks ++ marks) →
        ∃ (choice : Choice) (rest : Tokens) (groups' : Nat),
          tokens = choice.tokens ++ rest ∧ choice.InBounds ∧
            readMarks opened groups' rest = .ok marks
  | .only items, opened, groups, tokens, marks, sequence, settled, read => by
      rw [Outline.settle] at settled
      obtain ⟨_, ofItems, _⟩ := bind_eq_ok_iff.mp settled
      obtain ⟨series, rest, groups', rfl, inBounds, later⟩ :=
        exists_series_of_readMarks items ofItems read
      exact ⟨.only series, rest, groups', rfl, inBounds, later⟩
  | .either items alternate, opened, groups, tokens, marks, sequence, settled, read => by
      rw [Outline.settle] at settled
      obtain ⟨_, ofItems, more⟩ := bind_eq_ok_iff.mp settled
      obtain ⟨_, ofAlternate, _⟩ := bind_eq_ok_iff.mp more
      rw [Outline.marks, List.append_assoc, List.cons_append] at read
      obtain ⟨series, rest, _, rfl, inBounds, reads⟩ :=
        exists_series_of_readMarks items ofItems read
      obtain ⟨next, step, goesOn⟩ := reads_of_readMarks reads
      cases step with
      | bar bars =>
          obtain ⟨bar, rfl⟩ := Leaf.exists_of_kind bars
          obtain ⟨choice, rest, groups', rfl, choiceInBounds, later⟩ :=
            exists_choice_of_readMarks alternate ofAlternate goesOn
          refine ⟨.either series bar choice, rest, groups', ?_, ?_, later⟩
          · simp [Choice.tokens]
          · simpa only [Choice.InBounds] using ⟨inBounds, choiceInBounds⟩

end

end TextGrammar.Expression
