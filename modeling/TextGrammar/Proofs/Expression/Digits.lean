import TextGrammar.Expression.Symbol
import TextGrammar.Proofs.Pattern.Printing
import TextGrammar.Proofs.Text.Place
import TextGrammar.Proofs.Walk.Chain

/-!
The numbers among the tokens of an expression.

A number token is a match of the pattern for numbers, and what that matches is
made of digits. So every number token denotes a number, if only one that may be
too large.
-/

namespace TextGrammar

/-- Tokens whose numbers are written in digits. -/
def WrittenInDigits (tokens : List (Token Symbol)) : Prop :=
  ∀ token ∈ tokens, token.kind = .number →
    token.value.toList ≠ [] ∧ ∀ c ∈ token.value.toList, c.isDigit = true

/-- Between two offsets lies text that consists of characters of one sort. -/
def Text.Consists (text : Text) (sort : Char → Prop) (start stop : Nat) : Prop :=
  ∃ between, text.slice? start stop = some between ∧ ∀ c ∈ between, sort c

section Consists

variable {text : Text} {sort : Char → Prop} {start offset stop : Nat}

theorem Text.consists_self (place : text.IsPlace offset) : text.Consists sort offset offset :=
  ⟨[], slice?_self place, by simp⟩

theorem Text.Consists.trans (first : text.Consists sort start offset)
    (second : text.Consists sort offset stop) : text.Consists sort start stop := by
  obtain ⟨one, found, all⟩ := first
  obtain ⟨two, found', all'⟩ := second
  exact ⟨one ++ two, slice?_append found found', List.forall_mem_append.mpr ⟨all, all'⟩⟩

theorem Text.Consists.isPlace (consists : text.Consists sort start stop) : text.IsPlace stop := by
  obtain ⟨_, found, _⟩ := consists
  exact isPlace_stop_of_slice? found

/-- A repetition matches characters of the sort that its attempts match. -/
theorem consists_of_repeatWithin {ε σ : Type} {attempt : Nat → Trace → σ → Walked ε σ}
    {bounds : Quantifier} {attempts quantity : Nat} {trace : Trace} {state : σ}
    (matched : ∀ offset trace state stop, (attempt offset trace state).outcome = .reached stop →
      text.Consists sort offset stop)
    (place : text.IsPlace offset)
    (reached : (repeatWithin attempt bounds attempts quantity offset trace state).2.outcome =
      .reached stop) : text.Consists sort offset stop := by
  induction attempts generalizing quantity offset trace state with
  | zero =>
      cases more : bounds.allowsMore quantity with
      | false =>
          rw [repeatWithin_of_enough more] at reached
          cases reached
          exact Text.consists_self place
      | true =>
          rw [repeatWithin_zero more] at reached
          cases reached
  | succ attempts ih =>
      cases more : bounds.allowsMore quantity with
      | false =>
          rw [repeatWithin_of_enough more] at reached
          cases reached
          exact Text.consists_self place
      | true =>
          cases ends : (attempt offset trace state).outcome with
          | reached next =>
              have first := matched offset trace state next ends
              by_cases empty : next = offset
              · subst empty
                rw [repeatWithin_of_empty more ends] at reached
                obtain rfl : next = stop := by
                  split at reached <;> simp_all
                exact first
              · rw [repeatWithin_of_reached more ends empty] at reached
                have place' : text.IsPlace next := first.isPlace
                exact first.trans (ih place' reached)
          | failed =>
              rw [repeatWithin_of_failed more ends] at reached
              cases reached
              exact Text.consists_self place
          | raised | misplaced =>
              rw [repeatWithin_of_aborted more (by simp [ends]) (by simp [ends])] at reached
              simp [ends] at reached

end Consists

/-- The pattern of number tokens. -/
def numberPattern : Pattern where
  source := "[0-9]+"
  root := .only [⟨.set [.one (.single (.range '0' '9'))] false, some .onceOrMore⟩]
  groups := 0

theorem compile_number : Pattern.compile Symbol.number.pattern = .ok numberPattern := by
  -- Reading recurses on what is left and so does not compute; the one mark of the
  -- pattern is read by the lemmas about it.
  have ordered : ∀ item ∈ [CharClass.range '0' '9'], item.IsItem :=
    List.forall_mem_singleton.mpr (show '0' ≤ '9' by decide)
  have one := Pattern.readAtom_printSet ordered false 0 1 [⟨.plain '+', 5⟩]
  have read : Pattern.readMarks [] 0 (Pattern.glyphs 0 Symbol.number.pattern.toList) =
      .ok [.atom (.set [.one (.single (.range '0' '9'))] false) (some .onceOrMore)] :=
    Pattern.readMarks_of_reads (.atom ⟨by decide, one⟩ rfl)
      (Pattern.reader.nil_iff.mpr ⟨rfl, rfl⟩)
  rw [Pattern.compile, Pattern.read, read]
  rfl

theorem consists_of_matchChar {ε : Type} {text : Text} {sort : Char → Prop} {test : Char → Bool}
    (implies : ∀ c, test c = true → sort c) {offset stop : Nat}
    (reached : text.matchChar (ε := ε) test offset = .reached stop) :
    text.Consists sort offset stop := by
  unfold Text.matchChar at reached
  split at reached
  · cases reached
  · cases reached
  · rename_i c rest found
    split at reached
    · rename_i passes
      cases reached
      exact ⟨[c], Text.slice?_of_rest?_eq_cons found,
        List.forall_mem_singleton.mpr (implies c passes)⟩
    · cases reached

/-- A set of one class matches a character of the class. -/
theorem matchChar_of_walk_set {ε σ : Type} {setting : Setting ε σ} {chars : CharClass}
    {offset stop : Nat} {trace : Trace} {state : σ}
    (reached : ((Kind.set [.one (.single chars)] false).walk setting offset trace state).outcome =
      .reached stop) : setting.text.matchChar (ε := ε) chars.accepts offset = .reached stop := by
  rw [Kind.walk, Node.one, Node.walkAny_cons, Kind.walk] at reached
  cases ends : setting.text.matchChar (ε := ε) chars.accepts offset <;>
    simp_all [Walked.orElse, Node.walkAny]

theorem isDigit_of_accepts (c : Char) (accepted : (CharClass.range '0' '9').accepts c = true) :
    c.isDigit = true := by
  simpa [CharClass.accepts, Char.isDigit, Char.le_def] using accepted

/-- A match of the pattern for numbers consists of digits. -/
theorem consists_of_matchAt?_number {text : Text} {offset : Nat} {m : Match}
    (found : numberPattern.matchAt? text offset = some m) :
    text.Consists (·.isDigit = true) offset m.stop := by
  unfold Pattern.matchAt? at found
  split at found
  · rename_i place
    have isPlace : text.IsPlace offset := Text.isPlace_iff.mpr (Option.isSome_iff_exists.mp place)
    simp only at found
    split at found
    · rename_i stop reached
      cases found
      refine consists_of_repeatWithin ?_ isPlace (reached_of_walk_singleton reached)
      intro offset trace state stop reached
      exact consists_of_matchChar isDigit_of_accepts (matchChar_of_walk_set reached)
    · cases found
  · cases found

/-- The first match at an offset is a match of a rule that goes on in the text. -/
theorem Lexer.exists_rule_of_firstMatch? {κ : Type} {rules : List (κ × Pattern)} {text : Text}
    {offset stop : Nat} {kind : κ}
    (found : Lexer.firstMatch? rules text offset = some (kind, stop)) :
    ∃ pattern m, (kind, pattern) ∈ rules ∧ pattern.matchAt? text offset = some m ∧
      m.stop = stop ∧ offset < m.stop := by
  obtain ⟨⟨kind', pattern⟩, mem, chosen⟩ := List.exists_of_findSome?_eq_some found
  simp only at chosen
  split at chosen
  · rename_i m matching
    split at chosen
    · cases chosen
      exact ⟨pattern, m, mem, matching, rfl, ‹_›⟩
    · cases chosen
  · cases chosen

/-- A rule of the lexer of expressions has the pattern of its symbol. -/
theorem compile_of_mem_rules {symbol : Symbol} {pattern : Pattern}
    (mem : (symbol, pattern) ∈ expressionLexer.rules) :
    Pattern.compile symbol.pattern = .ok pattern := by
  obtain ⟨other, _, compiled⟩ := List.mem_filterMap.mp mem
  cases ends : Pattern.compile other.pattern with
  | error fault => simp [ends, Except.toOption] at compiled
  | ok found =>
      simp only [ends, Except.toOption, Option.map_some, Option.some.injEq, Prod.mk.injEq]
        at compiled
      obtain ⟨rfl, rfl⟩ := compiled
      exact ends

/-- A number token that comes next is written in digits. -/
theorem isWrittenInDigits_of_next {text : Text} {offset stop : Nat} {token : Token Symbol}
    (step : expressionLexer.next text offset = .token token stop) (number : token.kind = .number) :
    token.value.toList ≠ [] ∧ ∀ c ∈ token.value.toList, c.isDigit = true := by
  unfold Lexer.next at step
  split at step
  · cases step
  · split at step
    · cases step
    · cases step
    · split at step
      · cases step
      · rename_i kind stop' found
        cases step
        obtain rfl : kind = .number := number
        obtain ⟨pattern, m, mem, matching, rfl, advances⟩ := Lexer.exists_rule_of_firstMatch? found
        obtain rfl : pattern = numberPattern :=
          Except.ok.inj ((compile_of_mem_rules mem).symm.trans compile_number)
        obtain ⟨between, slice, digits⟩ := consists_of_matchAt?_number matching
        have ends := Text.add_size_of_slice? slice
        simp only [slice, Option.getD_some, String.toList_ofList]
        refine ⟨?_, digits⟩
        rintro rfl
        simp only [Text.size_nil] at ends
        omega

/-- The numbers among the tokens of an expression are written in digits. -/
theorem writtenInDigits_of_tokensFrom (text : Text) (offset : Nat) :
    WrittenInDigits (expressionLexer.tokensFrom text offset).1 := by
  fun_induction Lexer.tokensFrom expressionLexer text offset with
  | case1 => simp [WrittenInDigits]
  | case2 => simp [WrittenInDigits]
  | case3 offset found stop step tokens stray more ih =>
      rw [more] at ih
      exact List.forall_mem_cons.mpr ⟨isWrittenInDigits_of_next step, ih⟩

end TextGrammar
