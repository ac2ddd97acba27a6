import TextGrammar.Proofs.Expression.Derivation

/-!
Expressions have one derivation at most.

Each rule of the grammar can be told from the next token, so what a derivation
derives in front of other tokens fixes the derivation, as long as those tokens
can't go on with it. What may follow a part is said by the symbols that the rest
starts with (`StartsIn`).
-/

namespace TextGrammar.Expression

/-- What is left to read starts with one of these symbols, if anything is left. -/
def StartsIn (symbols : List Symbol) (rest : Tokens) : Prop :=
  ∀ token ∈ rest.head?, token.kind ∈ symbols

/-- The symbols that may follow an operand without a repetition. -/
abbrev afterOperand : List Symbol :=
  [.identifier, .leftParen, .leftBracket, .rightParen, .pipe]

theorem StartsIn.mono {symbols more : List Symbol} {rest : Tokens} (starts : StartsIn symbols rest)
    (sub : symbols ⊆ more) : StartsIn more rest :=
  fun token mem => sub (starts token mem)

theorem startsIn_cons {symbols : List Symbol} {symbol : Symbol} {leaf : Leaf symbol}
    {rest : Tokens} : StartsIn symbols (leaf.token :: rest) ↔ symbol ∈ symbols := by
  simp [StartsIn]

theorem Operand.startsIn (operand : Operand) (rest : Tokens) :
    StartsIn [.identifier, .leftParen, .leftBracket] (operand.tokens ++ rest) := by
  cases operand <;> simp [Operand.tokens, StartsIn]

theorem Operand.not_startsIn (operand : Operand) (rest : Tokens) :
    ¬ StartsIn [.rightParen, .pipe] (operand.tokens ++ rest) := by
  cases operand <;> simp [Operand.tokens, StartsIn]

/-- No series starts with the sign of a repetition, and none is followed by one. -/
theorem Series.startsIn (series : Series) {rest : Tokens}
    (starts : StartsIn [.rightParen, .pipe] rest) :
    StartsIn afterOperand (series.tokens ++ rest) := by
  cases series with
  | nil => exact starts.mono (by decide)
  | cons operand times more =>
      rw [Series.tokens, List.append_assoc]
      exact (operand.startsIn _).mono (by decide)

theorem Times.eq_of_append {times times' : Times} {rest rest' : Tokens}
    (same : times.tokens ++ rest = times'.tokens ++ rest') : times = times' ∧ rest = rest' := by
  cases times <;> cases times' <;> simp_all [Times.tokens]

theorem Times.eq_of_append? {times times' : Option Times} {rest rest' : Tokens}
    (same : Times.tokens? times ++ rest = Times.tokens? times' ++ rest')
    (starts : StartsIn afterOperand rest) (starts' : StartsIn afterOperand rest') :
    times = times' ∧ rest = rest' := by
  have unlike : ∀ (times : Times) {rest : Tokens},
      ¬ StartsIn afterOperand (times.tokens ++ rest) := by
    intro times rest
    cases times <;> simp [Times.tokens, StartsIn]
  cases times with
  | none =>
      cases times' with
      | none => exact ⟨rfl, same⟩
      | some times' =>
          obtain rfl : rest = times'.tokens ++ rest' := same
          exact absurd starts (unlike times')
  | some times =>
      cases times' with
      | none =>
          obtain rfl : times.tokens ++ rest = rest' := same
          exact absurd starts' (unlike times)
      | some times' =>
          obtain ⟨rfl, rest⟩ := Times.eq_of_append same
          exact ⟨rfl, rest⟩

/-- Names up to a closing bracket end there. -/
theorem names_eq_of_append {names names' : List (Leaf .identifier)}
    {closing closing' : Leaf .rightBracket} {rest rest' : Tokens}
    (same : names.map Leaf.token ++ closing.token :: rest =
      names'.map Leaf.token ++ closing'.token :: rest') :
    names = names' ∧ closing = closing' ∧ rest = rest' := by
  induction names generalizing names' with
  | nil => cases names' <;> simp_all
  | cons name names ih =>
      cases names' with
      | nil => simp_all
      | cons name' names' =>
          simp only [List.map_cons, List.cons_append, List.cons.injEq, Leaf.token_inj] at same
          obtain ⟨rfl, same⟩ := same
          obtain ⟨rfl, ends⟩ := ih same
          exact ⟨rfl, ends⟩

/-- A set without a caret doesn't start with one. -/
theorem names_ne_caret {names : List (Leaf .identifier)} {closing : Leaf .rightBracket}
    {caret : Leaf .caret} {rest rest' : Tokens} :
    names.map Leaf.token ++ closing.token :: rest ≠ caret.token :: rest' := by
  cases names <;> simp

/-- What stands between the brackets of a set ends with the closing one. -/
theorem set_eq_of_append {caret caret' : Option (Leaf .caret)}
    {names names' : List (Leaf .identifier)} {closing closing' : Leaf .rightBracket}
    {rest rest' : Tokens}
    (same : caret.toList.map Leaf.token ++ (names.map Leaf.token ++ closing.token :: rest) =
      caret'.toList.map Leaf.token ++ (names'.map Leaf.token ++ closing'.token :: rest')) :
    caret = caret' ∧ names = names' ∧ closing = closing' ∧ rest = rest' := by
  cases caret with
  | none =>
      cases caret' with
      | none => exact ⟨rfl, names_eq_of_append same⟩
      | some caret' => exact absurd same names_ne_caret
  | some caret =>
      cases caret' with
      | none => exact absurd same.symm names_ne_caret
      | some caret' =>
          simp only [Option.toList_some, List.map_cons, List.map_nil, List.singleton_append,
            List.cons.injEq, Leaf.token_inj] at same
          obtain ⟨rfl, names⟩ := same
          exact ⟨rfl, names_eq_of_append names⟩

mutual

theorem Operand.eq_of_append : ∀ {operand operand' : Operand} {rest rest' : Tokens},
    operand.tokens ++ rest = operand'.tokens ++ rest' → operand = operand' ∧ rest = rest'
  | .name name, .name name', rest, rest', same => by
      simpa [Operand.tokens] using same
  | .group opening body closing, .group opening' body' closing', rest, rest', same => by
      simp only [Operand.tokens, List.cons_append, List.append_assoc, List.nil_append,
        List.cons.injEq, Leaf.token_inj] at same
      obtain ⟨rfl, inside⟩ := same
      obtain ⟨rfl, closes⟩ := body.eq_of_append inside (startsIn_cons.mpr (by decide))
        (startsIn_cons.mpr (by decide))
      simpa using closes
  | .set opening caret names closing, .set opening' caret' names' closing', rest, rest', same => by
      simp only [Operand.tokens, List.cons_append, List.append_assoc, List.nil_append,
        List.cons.injEq, Leaf.token_inj] at same
      obtain ⟨rfl, inside⟩ := same
      obtain ⟨rfl, rfl, rfl, ends⟩ := set_eq_of_append inside
      exact ⟨rfl, ends⟩
  | .name _, .group _ _ _, _, _, same => by simp [Operand.tokens] at same
  | .name _, .set _ _ _ _, _, _, same => by simp [Operand.tokens] at same
  | .group _ _ _, .name _, _, _, same => by simp [Operand.tokens] at same
  | .group _ _ _, .set _ _ _ _, _, _, same => by simp [Operand.tokens] at same
  | .set _ _ _ _, .name _, _, _, same => by simp [Operand.tokens] at same
  | .set _ _ _ _, .group _ _ _, _, _, same => by simp [Operand.tokens] at same

theorem Series.eq_of_append : ∀ {series series' : Series} {rest rest' : Tokens},
    series.tokens ++ rest = series'.tokens ++ rest' → StartsIn [.rightParen, .pipe] rest →
      StartsIn [.rightParen, .pipe] rest' → series = series' ∧ rest = rest'
  | .nil, .nil, rest, rest', same, _, _ => ⟨rfl, same⟩
  | .nil, .cons operand' times' more', rest, rest', same, starts, _ => by
      rw [Series.tokens, List.nil_append, Series.tokens, List.append_assoc] at same
      exact absurd (same ▸ starts) (operand'.not_startsIn _)
  | .cons operand times more, .nil, rest, rest', same, _, starts' => by
      rw [Series.tokens, Series.tokens, List.nil_append, List.append_assoc] at same
      exact absurd (same ▸ starts') (operand.not_startsIn _)
  | .cons operand times more, .cons operand' times' more', rest, rest', same, starts, starts' => by
      simp only [Series.tokens, List.append_assoc] at same
      -- Whatever follows an operand, its repetition ends where no sign of one stands.
      obtain ⟨rfl, after⟩ := operand.eq_of_append same
      obtain ⟨rfl, later⟩ := Times.eq_of_append? after (more.startsIn starts)
        (more'.startsIn starts')
      obtain ⟨rfl, ends⟩ := more.eq_of_append later starts starts'
      exact ⟨rfl, ends⟩

theorem Choice.eq_of_append : ∀ {choice choice' : Choice} {rest rest' : Tokens},
    choice.tokens ++ rest = choice'.tokens ++ rest' → StartsIn [.rightParen] rest →
      StartsIn [.rightParen] rest' → choice = choice' ∧ rest = rest'
  | .only series, .only series', rest, rest', same, starts, starts' => by
      obtain ⟨rfl, ends⟩ := series.eq_of_append same (starts.mono (by decide))
        (starts'.mono (by decide))
      exact ⟨rfl, ends⟩
  -- One alternative would go on with a bar where the other has ended, but none
  -- may follow it there.
  | .only series, .either series' bar' alternate', rest, rest', same, starts, _ => by
      rw [Choice.tokens, Choice.tokens, List.append_assoc, List.cons_append] at same
      obtain ⟨_, rfl⟩ := series.eq_of_append same (starts.mono (by decide))
        (startsIn_cons.mpr (by decide))
      exact absurd (startsIn_cons.mp starts) (by decide)
  | .either series bar alternate, .only series', rest, rest', same, _, starts' => by
      rw [Choice.tokens, Choice.tokens, List.append_assoc, List.cons_append] at same
      obtain ⟨_, rfl⟩ := series.eq_of_append same (startsIn_cons.mpr (by decide))
        (starts'.mono (by decide))
      exact absurd (startsIn_cons.mp starts') (by decide)
  | .either series bar alternate, .either series' bar' alternate', rest, rest', same, starts,
      starts' => by
      simp only [Choice.tokens, List.append_assoc, List.cons_append] at same
      obtain ⟨rfl, after⟩ := series.eq_of_append same (startsIn_cons.mpr (by decide))
        (startsIn_cons.mpr (by decide))
      simp only [List.cons.injEq, Leaf.token_inj] at after
      obtain ⟨rfl, later⟩ := after
      obtain ⟨rfl, ends⟩ := alternate.eq_of_append later starts starts'
      exact ⟨rfl, ends⟩

end

/-- The grammar of expressions is unambiguous. -/
theorem Choice.eq_of_tokens_eq {choice choice' : Choice} (same : choice.tokens = choice'.tokens) :
    choice = choice' := by
  have followed : choice.tokens ++ [] = choice'.tokens ++ [] := by rw [same]
  exact (choice.eq_of_append followed (by simp [StartsIn]) (by simp [StartsIn])).1

end TextGrammar.Expression
