import TextGrammar.Proofs.Expression.Acceptance
import TextGrammar.Proofs.Expression.Compilation

/-!
What faults of expressions point at.

A fault is found in one of two rounds: while the tokens are read, or while atoms and
repetitions are settled. Its offset has been handed on from where a token was found.
`Fault.PointsAt` says for every fault what lies at the offset, without a look at how the
fault is found: the token that is quoted, the sign that is never closed, or the brace that
opens the bounds. The faults of all sources that are made of tokens comply
(`exists_pointsAt_of_compile`). What points elsewhere than at its token is a bound that is
too large: the first number of the bounds is blamed, be it the other one that is too large.
-/

namespace TextGrammar

namespace Expression

/-! ### What there is at an offset -/

/-- A token with this text lies at the offset. -/
def Quotes (tokens : Tokens) (value : String) (offset : Nat) : Prop :=
  ∃ token ∈ tokens, token.value = value ∧ token.index = offset

/-- So many groups are open in front of some tokens, and one more that the tokens leave
open: however far one goes on, there have been no more closing signs than opening ones and
those groups. -/
def LeftOpen (opening closing : Symbol) (inside : Nat) (tokens : Tokens) : Prop :=
  ∀ stretch, stretch <+: tokens →
    stretch.countP (·.kind = closing) ≤ stretch.countP (·.kind = opening) + inside

/-- At the offset lies an opening sign that is left open. -/
def LacksClosing (tokens : Tokens) (opening closing : Symbol) (offset : Nat) : Prop :=
  ∃ (front : Tokens) (bracket : Leaf opening) (behind : Tokens),
    tokens = front ++ bracket.token :: behind ∧ bracket.index = offset ∧
      LeftOpen opening closing 0 behind

/-- At the offset lies a brace that opens bounds, and these tokens stand in them. -/
def OpensBounds (tokens : Tokens) (contents : Tokens) (offset : Nat) : Prop :=
  ∃ (front : Tokens) (brace : Leaf .leftBrace) (closing : Leaf .rightBrace) (behind : Tokens),
    tokens = front ++ brace.token :: (contents ++ closing.token :: behind) ∧
      brace.index = offset ∧ ∀ token ∈ contents, token.kind.isContent = true

/-- The forms that bounds may have. -/
def boundsForms : List (List Symbol) :=
  [[.number], [.number, .comma], [.number, .comma, .number]]

/-- What lies at the offset of a fault. -/
def Fault.PointsAt (tokens : Tokens) (offset : Nat) : Fault → Prop
  | .strayCharacter _ => False
  | .unbalanced found | .nothingToRepeat found | .unexpectedClosing found
  | .unexpectedInSet found | .unexpectedInBounds found => Quotes tokens found offset
  | .missing sign =>
      (sign = ')' ∧ LacksClosing tokens .leftParen .rightParen offset) ∨
      (sign = ']' ∧ LacksClosing tokens .leftBracket .rightBracket offset) ∨
      (sign = '}' ∧ LacksClosing tokens .leftBrace .rightBrace offset)
  | .notAnIdentifier found =>
      ∃ token ∈ tokens, token.value = found ∧ token.index = offset ∧ token.kind ≠ .identifier
  | .malformedBounds =>
      ∃ contents, OpensBounds tokens contents offset ∧
        contents.map Token.kind ∉ boundsForms
  | .reversedBounds min max =>
      ∃ (low : Leaf .number) (comma : Leaf .comma) (high : Leaf .number),
        OpensBounds tokens [low.token, comma.token, high.token] offset ∧
          low.number = min ∧ high.number = max ∧ max < min
  | .boundTooLarge =>
      ∃ (first : Leaf .number) (more : Tokens) (opened : Nat),
        OpensBounds tokens (first.token :: more) opened ∧ first.index = offset ∧
          ∃ large : Leaf .number, large.token ∈ first.token :: more ∧ maxNumber < large.number

/-! ### In front of more tokens -/

section Front

variable {tokens : Tokens} {offset : Nat} (front : Tokens)

/-- Tokens that are put in front of a quoted one leave it quoted. -/
theorem Quotes.append {value : String} (quotes : Quotes tokens value offset) :
    Quotes (front ++ tokens) value offset := by
  obtain ⟨token, mem, found⟩ := quotes
  exact ⟨token, List.mem_append_right _ mem, found⟩

/-- The value of the token at hand is quoted at its own offset. -/
theorem quotes_head (token : Token Symbol) (rest : Tokens) :
    Quotes (token :: rest) token.value token.index :=
  ⟨token, List.mem_cons_self, rfl, rfl⟩

/-- A bracket that lacks its closing one still lacks it behind other tokens. -/
theorem LacksClosing.append {opening closing : Symbol}
    (lacks : LacksClosing tokens opening closing offset) :
    LacksClosing (front ++ tokens) opening closing offset := by
  obtain ⟨before, bracket, behind, rfl, found⟩ := lacks
  exact ⟨front ++ before, bracket, behind, (List.append_assoc ..).symm, found⟩

/-- Bounds that open among some tokens open among more in front of them. -/
theorem OpensBounds.append {contents : Tokens} (opens : OpensBounds tokens contents offset) :
    OpensBounds (front ++ tokens) contents offset := by
  obtain ⟨before, brace, closing, behind, rfl, found⟩ := opens
  exact ⟨front ++ before, brace, closing, behind, (List.append_assoc ..).symm, found⟩

/-- The contents of bounds are tokens of the source. -/
theorem OpensBounds.subset {contents : Tokens} (opens : OpensBounds tokens contents offset) :
    contents ⊆ tokens := by
  obtain ⟨before, brace, closing, behind, rfl, _⟩ := opens
  intro token mem
  simp [mem]

/-- What a fault points at is there whatever stands in front of it. -/
theorem Fault.PointsAt.append {fault : Fault} (points : fault.PointsAt tokens offset) :
    fault.PointsAt (front ++ tokens) offset := by
  cases fault with
  | strayCharacter => exact points
  | unbalanced | nothingToRepeat | unexpectedClosing | unexpectedInSet | unexpectedInBounds =>
      exact Quotes.append front points
  | missing sign =>
      obtain ⟨same, lacks⟩ | ⟨same, lacks⟩ | ⟨same, lacks⟩ := points
      · exact .inl ⟨same, lacks.append front⟩
      · exact .inr (.inl ⟨same, lacks.append front⟩)
      · exact .inr (.inr ⟨same, lacks.append front⟩)
  | notAnIdentifier =>
      obtain ⟨token, mem, found⟩ := points
      exact ⟨token, List.mem_append_right _ mem, found⟩
  | malformedBounds =>
      obtain ⟨contents, opens, others⟩ := points
      exact ⟨contents, opens.append front, others⟩
  | reversedBounds =>
      obtain ⟨low, comma, high, opens, found⟩ := points
      exact ⟨low, comma, high, opens.append front, found⟩
  | boundTooLarge =>
      obtain ⟨first, more, opened, opens, found⟩ := points
      exact ⟨first, more, opened, opens.append front, found⟩

end Front

/-! ### Faults that are found while reading -/

/-- Contents that can't be read up to their closing sign are content up to the end of the
tokens, or up to one that has no place in them. -/
theorem readContents_eq_error {closing : Symbol} {sign : Char} {unexpected : String → Fault}
    {opened : Nat} {rest : Tokens} {fault : Located Fault}
    (read : readContents closing sign unexpected opened rest = .error fault) :
    (fault = ⟨.missing sign, opened⟩ ∧ ∀ token ∈ rest, token.kind ≠ closing) ∨
      ∃ token ∈ rest, fault = ⟨unexpected token.value, token.index⟩ := by
  fun_induction readContents closing sign unexpected opened rest with
  | case1 =>
      cases read
      exact .inl ⟨rfl, by simp⟩
  | case2 => cases read
  | case3 token rest others _ ih =>
      rcases ih (map_eq_error_iff.mp read) with ⟨same, none⟩ | ⟨later, mem, same⟩
      · exact .inl ⟨same, List.forall_mem_cons.mpr ⟨others, none⟩⟩
      · exact .inr ⟨later, List.mem_cons_of_mem _ mem, same⟩
  | case4 token rest =>
      cases read
      exact .inr ⟨token, List.mem_cons_self, rfl⟩

/-- Without a closing sign behind it, an opening sign is left open. -/
theorem lacksClosing_of_forall {opening closing : Symbol} {token : Token Symbol} {rest : Tokens}
    (opens : token.kind = opening) (none : ∀ later ∈ rest, later.kind ≠ closing) :
    LacksClosing (token :: rest) opening closing token.index := by
  obtain ⟨bracket, rfl⟩ := Leaf.exists_of_kind opens
  refine ⟨[], bracket, rest, rfl, rfl, fun stretch within => ?_⟩
  have closings : stretch.countP (·.kind = closing) = 0 := by
    rw [List.countP_eq_zero]
    intro later mem
    simpa using none later (within.subset mem)
  rw [closings]
  exact Nat.zero_le _

/-- A fault in bounds points at a token of theirs, or at the brace that is not closed. -/
theorem pointsAt_of_readRepetition {rest : Tokens} {fault : Located Fault}
    (read : readRepetition rest = .error fault) : fault.content.PointsAt rest fault.offset := by
  unfold readRepetition at read
  split at read
  · cases read
  · rename_i token left
    split at read
    · cases read
    · cases read
    · cases read
    · split at read
      · rename_i opens _ _ contents
        cases read
        rcases readContents_eq_error contents with ⟨rfl, none⟩ | ⟨later, mem, rfl⟩
        · exact .inr (.inr ⟨rfl, lacksClosing_of_forall opens none⟩)
        · exact ⟨later, List.mem_cons_of_mem _ mem, rfl, rfl⟩
      · cases read
    · cases read

/-- A fault in an atom points at a token of it, or at the bracket that is not closed. -/
theorem pointsAt_of_readAtom {token : Token Symbol} {rest : Tokens} {fault : Located Fault}
    (read : readAtom token rest = .error fault) :
    fault.content.PointsAt (token :: rest) fault.offset := by
  unfold readAtom at read
  split at read
  · split at read
    · rename_i opens _ _ contents
      cases read
      rcases readContents_eq_error contents with ⟨rfl, none⟩ | ⟨later, mem, rfl⟩
      · exact .inr (.inl ⟨rfl, lacksClosing_of_forall opens none⟩)
      · exact ⟨later, List.mem_cons_of_mem _ mem, rfl, rfl⟩
    · cases read
  · split at read
    · cases read
    · cases read
      exact ⟨token, List.mem_cons_self, rfl, rfl⟩

/-- No parenthesis is among the tokens. -/
def Flat (tokens : Tokens) : Prop :=
  ∀ token ∈ tokens, token.kind ≠ .leftParen ∧ token.kind ≠ .rightParen

theorem flat_nil : Flat [] := by
  simp [Flat]

/-- The contents of sets and bounds hold no parentheses. -/
theorem flat_of_isContent {contents : Tokens}
    (content : ∀ token ∈ contents, token.kind.isContent = true) : Flat contents := by
  intro token mem
  have isContent := content token mem
  constructor <;> intro kind <;> simp [kind, Symbol.isContent] at isContent

theorem flat_cons {token : Token Symbol} {tokens : Tokens} :
    Flat (token :: tokens) ↔
      (token.kind ≠ .leftParen ∧ token.kind ≠ .rightParen) ∧ Flat tokens :=
  List.forall_mem_cons

theorem flat_append {front back : Tokens} : Flat (front ++ back) ↔ Flat front ∧ Flat back :=
  List.forall_mem_append

/-- If a repetition was read as bounds, it was these. -/
def Bounded (tokens : Tokens) (repetition : Option Repetition) : Prop :=
  ∀ offset contents, repetition = some (.bounds offset contents) →
    OpensBounds tokens contents offset

/-- What is read as a repetition are the first tokens, none of which is a parenthesis; and
if it is read as bounds, it is these. -/
theorem exists_taken_of_readRepetition {rest left : Tokens} {repetition : Option Repetition}
    (read : readRepetition rest = .ok (repetition, left)) :
    ∃ taken, Flat taken ∧ rest = taken ++ left ∧ Bounded rest repetition := by
  unfold readRepetition at read
  split at read
  · cases read
    exact ⟨[], flat_nil, rfl, by simp [Bounded]⟩
  · rename_i token left'
    split at read
    · cases read
      exact ⟨[token], by simp [Flat, *], rfl, by simp [Bounded]⟩
    · cases read
      exact ⟨[token], by simp [Flat, *], rfl, by simp [Bounded]⟩
    · cases read
      exact ⟨[token], by simp [Flat, *], rfl, by simp [Bounded]⟩
    · split at read
      · cases read
      · rename_i opens _ contents left read'
        cases read
        obtain ⟨content, closing, rfl⟩ := (readContents_eq_ok_iff rfl).mp read'
        obtain ⟨brace, rfl⟩ := Leaf.exists_of_kind opens
        refine ⟨brace.token :: (contents ++ [closing.token]), ?_, by simp, ?_⟩
        · rw [flat_cons, flat_append]
          exact ⟨by simp, flat_of_isContent content, by simp [Flat]⟩
        · rintro _ _ ⟨⟩
          exact ⟨[], brace, closing, left, rfl, rfl, content⟩
    · cases read
      exact ⟨[], flat_nil, rfl, by simp [Bounded]⟩

/-- The tokens that an atom was written with, apart from the brackets of a set. -/
def Atom.tokens : Atom → Tokens
  | .value token => [token]
  | .set contents => contents

/-- What is read as an atom are the first tokens, none of which is a parenthesis. -/
theorem exists_taken_of_readAtom {token : Token Symbol} {rest left : Tokens} {atom : Atom}
    (read : readAtom token rest = .ok (atom, left)) :
    ∃ taken, Flat (token :: taken) ∧ rest = taken ++ left ∧ atom.tokens ⊆ token :: taken := by
  unfold readAtom at read
  split at read
  · split at read
    · cases read
    · rename_i opens _ contents left read'
      cases read
      obtain ⟨content, closing, rfl⟩ := (readContents_eq_ok_iff rfl).mp read'
      refine ⟨contents ++ [closing.token], ?_, by simp, ?_⟩
      · rw [flat_cons, flat_append]
        exact ⟨by simp [opens], flat_of_isContent content, by simp [Flat]⟩
      · exact List.subset_cons_of_subset _ (List.subset_append_left ..)
  · split at read
    · rename_i isContent
      cases read
      refine ⟨[], flat_of_isContent (List.forall_mem_singleton.mpr isContent), rfl, ?_⟩
      exact List.Subset.refl _
    · cases read

/-- One more token in front may open a group, which is one of those inside, or close one. -/
theorem LeftOpen.cons {opening closing : Symbol} {inside inside' : Nat} {token : Token Symbol}
    {rest : Tokens} (leftOpen : LeftOpen opening closing inside rest)
    (counts : [token].countP (·.kind = closing) + inside ≤
      [token].countP (·.kind = opening) + inside') :
    LeftOpen opening closing inside' (token :: rest) := by
  intro stretch within
  rcases List.prefix_cons_iff.mp within with rfl | ⟨stretch, rfl, later⟩
  · exact Nat.zero_le _
  · have := leftOpen stretch later
    simp only [List.countP_cons, List.countP_nil] at counts ⊢
    omega

/-- Tokens without parentheses leave a parenthesis open that is open behind them. -/
theorem LeftOpen.append_flat {inside : Nat} {taken rest : Tokens}
    (leftOpen : LeftOpen .leftParen .rightParen inside rest) (flat : Flat taken) :
    LeftOpen .leftParen .rightParen inside (taken ++ rest) := by
  induction taken with
  | nil => exact leftOpen
  | cons token taken ih =>
      obtain ⟨⟨notOpening, notClosing⟩, others⟩ := flat_cons.mp flat
      exact (ih others).cons (by simp [notOpening, notClosing])

/-- What a fault that is found while reading points at: something among the tokens that are
left, or one of the groups that are open in front of them, which they leave open. -/
def PointsAtOrBefore (opened : List Nat) (tokens : Tokens) (fault : Located Fault) : Prop :=
  fault.content.PointsAt tokens fault.offset ∨
    fault.content = .missing ')' ∧ ∃ inside : Nat, opened[inside]? = some fault.offset ∧
      LeftOpen .leftParen .rightParen inside tokens

section Reading

variable {opened : List Nat} {token : Token Symbol} {rest : Tokens} {fault : Located Fault}

/-- A fault that is in place behind tokens without parentheses is in place with them. -/
theorem PointsAtOrBefore.append_flat (points : PointsAtOrBefore opened rest fault)
    {taken : Tokens} (flat : Flat taken) : PointsAtOrBefore opened (taken ++ rest) fault := by
  rcases points with among | ⟨missing, inside, open_, leftOpen⟩
  · exact .inl (among.append taken)
  · exact .inr ⟨missing, inside, open_, leftOpen.append_flat flat⟩

/-- Behind an opening parenthesis there is one more to be blamed for not being closed. -/
theorem PointsAtOrBefore.opening (opens : token.kind = .leftParen)
    (points : PointsAtOrBefore (token.index :: opened) rest fault) :
    PointsAtOrBefore opened (token :: rest) fault := by
  rcases points with among | ⟨missing, inside, open_, leftOpen⟩
  · exact .inl (among.append [token])
  · cases inside with
    | zero =>
        -- It is the group that the token opens.
        obtain ⟨bracket, rfl⟩ := Leaf.exists_of_kind opens
        obtain ⟨content, offset⟩ := fault
        obtain rfl : content = .missing ')' := missing
        obtain rfl : bracket.index = offset := Option.some.inj open_
        exact .inl (.inl ⟨rfl, [], bracket, rest, rfl, rfl, leftOpen⟩)
    | succ inside =>
        exact .inr ⟨missing, inside, open_, leftOpen.cons (by simp [opens, Nat.add_comm])⟩

/-- Behind a closing parenthesis the one that it closes can no longer be blamed. -/
theorem PointsAtOrBefore.closing {offset : Nat} (closes : token.kind = .rightParen)
    (points : PointsAtOrBefore opened rest fault) :
    PointsAtOrBefore (offset :: opened) (token :: rest) fault := by
  rcases points with among | ⟨missing, inside, open_, leftOpen⟩
  · exact .inl (among.append [token])
  · exact .inr ⟨missing, inside + 1, open_, leftOpen.cons (by simp [closes, Nat.add_comm])⟩

/-- A fault of structure points at a token, or at a parenthesis opened before. -/
theorem pointsAtOrBefore_of_readMarks {groups : Nat} {tokens : Tokens}
    (read : readMarks opened groups tokens = .error fault) :
    PointsAtOrBefore opened tokens fault := by
  fun_induction readMarks opened groups tokens with
  | case1 => cases read
  | case2 offset opened =>
      cases read
      exact .inr ⟨rfl, 0, rfl, by simp [LeftOpen]⟩
  | case3 opened groups token rest opens ih =>
      exact (ih (map_eq_error_iff.mp read)).opening opens
  | case4 opened groups token rest bar ih =>
      have flat : Flat [token] := by simp [Flat, bar]
      exact (ih (map_eq_error_iff.mp read)).append_flat flat
  | case5 groups token rest =>
      cases read
      exact .inl (quotes_head token rest)
  | case6 groups token rest _ offset opened fault' repeated =>
      cases read
      exact .inl ((pointsAt_of_readRepetition repeated).append [token])
  | case7 groups token rest closes offset opened repetition left repeated ih =>
      obtain ⟨taken, flat, rfl, _⟩ := exists_taken_of_readRepetition repeated
      exact ((ih (map_eq_error_iff.mp read)).append_flat flat).closing closes
  | case8 groups token rest | case10 groups token rest =>
      cases read
      exact .inl (quotes_head token rest)
  | case9 opened groups token rest | case11 opened groups token rest =>
      cases read
      exact .inl (quotes_head token rest)
  | case12 opened groups token rest fault' one =>
      cases read
      exact .inl (pointsAt_of_readAtom one)
  | case13 opened groups token rest atom left one fault' repeated =>
      cases read
      obtain ⟨taken, _, rfl, _⟩ := exists_taken_of_readAtom one
      exact .inl ((pointsAt_of_readRepetition repeated).append (token :: taken))
  | case14 opened groups token rest atom middle one repetition left repeated _ _ _ _ _ ih =>
      obtain ⟨taken, flat, rfl, _⟩ := exists_taken_of_readAtom one
      obtain ⟨taken', flat', rfl, _⟩ := exists_taken_of_readRepetition repeated
      exact ((ih (map_eq_error_iff.mp read)).append_flat flat').append_flat flat

end Reading

/-- Faults that are found while all tokens are read are among these. -/
theorem pointsAt_of_readMarks {groups : Nat} {tokens : Tokens} {fault : Located Fault}
    (read : readMarks [] groups tokens = .error fault) :
    fault.content.PointsAt tokens fault.offset := by
  rcases pointsAtOrBefore_of_readMarks read with among | ⟨_, inside, outer, _⟩
  · exact among
  · cases outer

/-! ### Faults that are found while settling -/

end Expression

section Settle

variable {α β ε : Type} {kind : α → Except ε Kind} {quantifier : β → Except ε (Option Quantifier)}
  {fault : ε}

/-- What a mark was written for has this fault. -/
def Mark.Fails (kind : α → Except ε Kind) (quantifier : β → Except ε (Option Quantifier))
    (fault : ε) : Mark α β → Prop
  | .atom content repetition => quantifier repetition = .error fault ∨ kind content = .error fault
  | .closing repetition => quantifier repetition = .error fault
  | .opening _ | .bar => False

namespace Outline

mutual

/-- An item that can't be settled has a mark that can't. -/
theorem exists_fails_of_settleItem : ∀ item : Item α β,
    settleItem kind quantifier item = .error fault →
      ∃ mark ∈ item.marks, mark.Fails kind quantifier fault
  | .atom content repetition, settled => by
      rw [settleItem] at settled
      refine ⟨.atom content repetition, List.mem_singleton_self _, ?_⟩
      rcases bind_eq_error_iff.mp settled with here | ⟨_, _, more⟩
      · exact .inl here
      · rcases bind_eq_error_iff.mp more with here | ⟨_, _, done⟩
        · exact .inr here
        · cases done
  | .group number body repetition, settled => by
      rw [settleItem] at settled
      rw [Item.marks]
      rcases bind_eq_error_iff.mp settled with here | ⟨_, _, more⟩
      · exact ⟨.closing repetition, by simp, here⟩
      · rcases bind_eq_error_iff.mp more with inside | ⟨_, _, done⟩
        · obtain ⟨mark, mem, fails⟩ := exists_fails_of_settle body inside
          exact ⟨mark, by simp [mem], fails⟩
        · cases done

theorem exists_fails_of_settleItems : ∀ items : List (Item α β),
    settleItems kind quantifier items = .error fault →
      ∃ mark ∈ Item.marksOfAll items, mark.Fails kind quantifier fault
  | [], settled => by
      rw [settleItems] at settled
      cases settled
  | item :: items, settled => by
      rw [settleItems] at settled
      rw [Item.marksOfAll]
      rcases bind_eq_error_iff.mp settled with here | ⟨_, _, more⟩
      · obtain ⟨mark, mem, fails⟩ := exists_fails_of_settleItem item here
        exact ⟨mark, List.mem_append_left _ mem, fails⟩
      · rcases bind_eq_error_iff.mp more with later | ⟨_, _, done⟩
        · obtain ⟨mark, mem, fails⟩ := exists_fails_of_settleItems items later
          exact ⟨mark, List.mem_append_right _ mem, fails⟩
        · cases done

/-- An outline that can't be settled has the fault from one of its marks. -/
theorem exists_fails_of_settle : ∀ outline : Outline α β,
    settle kind quantifier outline = .error fault →
      ∃ mark ∈ outline.marks, mark.Fails kind quantifier fault
  | .only items, settled => by
      rw [settle] at settled
      rw [marks]
      rcases bind_eq_error_iff.mp settled with here | ⟨_, _, done⟩
      · exact exists_fails_of_settleItems items here
      · cases done
  | .either items alternate, settled => by
      rw [settle] at settled
      rw [marks]
      rcases bind_eq_error_iff.mp settled with here | ⟨_, _, more⟩
      · obtain ⟨mark, mem, fails⟩ := exists_fails_of_settleItems items here
        exact ⟨mark, List.mem_append_left _ mem, fails⟩
      · rcases bind_eq_error_iff.mp more with later | ⟨_, _, done⟩
        · obtain ⟨mark, mem, fails⟩ := exists_fails_of_settle alternate later
          exact ⟨mark, List.mem_append_right _ (List.mem_cons_of_mem _ mem), fails⟩
        · cases done

end

end Outline

end Settle

namespace Expression

/-- The tokens that a mark was written with are among these. -/
def Written (tokens : Tokens) : Mark Atom (Option Repetition) → Prop
  | .atom atom repetition => atom.tokens ⊆ tokens ∧ Bounded tokens repetition
  | .closing repetition => Bounded tokens repetition
  | .opening _ | .bar => True

/-- Bounds that stand among some tokens stand among more in front of them. -/
theorem Bounded.append {tokens : Tokens} {repetition : Option Repetition}
    (bounded : Bounded tokens repetition) (front : Tokens) :
    Bounded (front ++ tokens) repetition :=
  fun offset contents same => (bounded offset contents same).append front

/-- A mark that is written in some tokens is written in more in front of them. -/
theorem Written.append {tokens : Tokens} {mark : Mark Atom (Option Repetition)}
    (written : Written tokens mark) (front : Tokens) : Written (front ++ tokens) mark := by
  cases mark with
  | atom atom repetition =>
      exact ⟨List.subset_append_of_subset_right _ written.1, written.2.append front⟩
  | closing repetition => exact Bounded.append written front
  | opening | bar => trivial

/-- Every mark that is read was written with some of the tokens. -/
theorem written_of_readMarks {opened : List Nat} {groups : Nat} {tokens : Tokens}
    {marks : List (Mark Atom (Option Repetition))}
    (read : readMarks opened groups tokens = .ok marks) : ∀ mark ∈ marks, Written tokens mark := by
  induction marks generalizing opened groups tokens with
  | nil => simp
  | cons mark marks ih =>
      obtain ⟨next, step, more⟩ := reads_of_readMarks read
      have later := ih more
      cases step with
      | @opening _ _ _ token rest _ =>
          exact List.forall_mem_cons.mpr ⟨trivial, fun mark mem => (later mark mem).append [token]⟩
      | @bar _ _ token rest _ =>
          exact List.forall_mem_cons.mpr ⟨trivial, fun mark mem => (later mark mem).append [token]⟩
      | @closing _ _ _ token rest left repetition _ repeats =>
          obtain ⟨taken, _, rfl, bounded⟩ := exists_taken_of_readRepetition repeats
          exact List.forall_mem_cons.mpr ⟨bounded.append [token],
            fun mark mem => (later mark mem).append (token :: taken)⟩
      | @atom _ _ token rest middle left atom repetition one repeats =>
          obtain ⟨taken, _, rfl, among⟩ := exists_taken_of_readAtom one
          obtain ⟨taken', _, rfl, bounded⟩ := exists_taken_of_readRepetition repeats
          refine List.forall_mem_cons.mpr ⟨⟨?_, bounded.append (token :: taken)⟩, ?_⟩
          · exact List.Subset.trans among (List.subset_append_left (token :: taken) _)
          · intro mark mem
            have behind := ((later mark mem).append taken').append (token :: taken)
            exact behind

/-! ### Names and bounds -/

section Faults

variable {tokens : Tokens} {fault : Located Fault}

/-- The only fault of a name is that its token is no identifier, and the token is blamed. -/
theorem name_eq_error {token : Token Symbol} (named : name token = .error fault) :
    fault = ⟨.notAnIdentifier token.value, token.index⟩ ∧ token.kind ≠ .identifier := by
  unfold name at named
  split at named
  · cases named
  · cases named
    exact ⟨rfl, ‹_›⟩

/-- A set that can't be settled has a token in it that is no identifier, and the token is
blamed. -/
theorem items_eq_error (settled : items tokens = .error fault) :
    ∃ token ∈ tokens, fault = ⟨.notAnIdentifier token.value, token.index⟩ ∧
      token.kind ≠ .identifier := by
  induction tokens with
  | nil => cases settled
  | cons token tokens ih =>
      rw [items] at settled
      rcases bind_eq_error_iff.mp settled with here | ⟨_, _, more⟩
      · exact ⟨token, List.mem_cons_self, name_eq_error here⟩
      · rcases bind_eq_error_iff.mp more with later | ⟨_, _, done⟩
        · obtain ⟨found, mem, blamed⟩ := ih later
          exact ⟨found, List.mem_cons_of_mem _ mem, blamed⟩
        · cases done

/-- An atom that isn't made of names has a token that isn't one. -/
theorem Atom.kind_eq_error {atom : Atom} (settled : atom.kind = .error fault) :
    ∃ token ∈ atom.tokens, fault = ⟨.notAnIdentifier token.value, token.index⟩ ∧
      token.kind ≠ .identifier := by
  unfold Atom.kind at settled
  split at settled
  · rename_i token
    rcases bind_eq_error_iff.mp settled with here | ⟨_, _, done⟩
    · exact ⟨token, List.mem_singleton_self _, name_eq_error here⟩
    · cases done
  · rename_i token tokens
    split at settled
    · rcases bind_eq_error_iff.mp settled with here | ⟨_, _, done⟩
      · obtain ⟨found, mem, blamed⟩ := items_eq_error here
        exact ⟨found, List.mem_cons_of_mem _ mem, blamed⟩
      · cases done
    · rcases bind_eq_error_iff.mp settled with here | ⟨_, _, done⟩
      · exact items_eq_error here
      · cases done
  · cases settled

/-- A bound that is refused is too large, whatever is blamed for it. -/
theorem bound_eq_error {leaf : Leaf .number} {offset : Nat} (written : WrittenInDigits tokens)
    (mem : leaf.token ∈ tokens) (refused : bound leaf.value offset = .error fault) :
    fault = ⟨.boundTooLarge, offset⟩ ∧ maxNumber < leaf.number := by
  unfold bound at refused
  split at refused
  · cases refused
  · rename_i none
    cases refused
    refine ⟨rfl, Nat.lt_of_not_le fun small => ?_⟩
    obtain ⟨nonempty, digits⟩ := written leaf.token mem rfl
    have some := number?_eq_some_iff.mpr ⟨nonempty, digits, rfl, small⟩
    cases none.symm.trans some

/-- What bounds are refused for is at the brace that opens them, or is a number that is
too large. -/
theorem pointsAt_of_bounds {contents : Tokens} {offset : Nat} (written : WrittenInDigits tokens)
    (opens : OpensBounds tokens contents offset)
    (settled : (Repetition.bounds offset contents).quantifier = .error fault) :
    fault.content.PointsAt tokens fault.offset := by
  have large : ∀ (first : Leaf .number) (more : Tokens) (leaf : Leaf .number),
      contents = first.token :: more → leaf.token ∈ contents →
      bound leaf.value first.index = .error fault →
      fault.content.PointsAt tokens fault.offset := by
    rintro first more leaf rfl mem refused
    obtain ⟨rfl, large⟩ := bound_eq_error written (opens.subset mem) refused
    exact ⟨first, more, offset, opens, rfl, leaf, mem, large⟩
  unfold Repetition.quantifier at settled
  split at settled
  · cases ‹Repetition.bounds _ _ = _›
  · cases ‹Repetition.bounds _ _ = _›
  · cases ‹Repetition.bounds _ _ = _›
  · rename_i n first same
    cases same
    rcases bind_eq_error_iff.mp settled with low | ⟨_, _, done⟩
    · exact large ⟨n, first⟩ _ ⟨n, first⟩ rfl (by simp [Leaf.token]) low
    · cases done
  · rename_i n first comma place same
    cases same
    rcases bind_eq_error_iff.mp settled with low | ⟨_, _, done⟩
    · exact large ⟨n, first⟩ _ ⟨n, first⟩ rfl (by simp [Leaf.token]) low
    · cases done
  · rename_i n first comma place m second same
    cases same
    rcases bind_eq_error_iff.mp settled with low | ⟨min, isMin, more⟩
    · exact large ⟨n, first⟩ _ ⟨n, first⟩ rfl (by simp [Leaf.token]) low
    · rcases bind_eq_error_iff.mp more with high | ⟨max, isMax, ordered⟩
      · exact large ⟨n, first⟩ _ ⟨m, second⟩ rfl (by simp [Leaf.token]) high
      · obtain ⟨_, _, denotesMin, _⟩ := number?_eq_some_iff.mp (bound_eq_ok_iff.mp isMin)
        obtain ⟨_, _, denotesMax, _⟩ := number?_eq_some_iff.mp (bound_eq_ok_iff.mp isMax)
        by_cases inOrder : min ≤ max
        · simp only [Quantifier.between?, if_pos inOrder] at ordered
          cases ordered
        · simp only [Quantifier.between?, if_neg inOrder] at ordered
          cases ordered
          exact ⟨⟨n, first⟩, ⟨comma, place⟩, ⟨m, second⟩, opens, denotesMin, denotesMax,
            Nat.lt_of_not_le inOrder⟩
  · rename_i notOne notLeast notBetween same
    cases same
    cases settled
    refine ⟨contents, opens, fun form => ?_⟩
    simp only [boundsForms, List.mem_cons, List.not_mem_nil, or_false, List.map_eq_cons_iff,
      List.map_eq_nil_iff] at form
    rcases form with ⟨⟨_, n, first⟩, _, rfl, rfl, rfl⟩ |
      ⟨⟨_, n, first⟩, _, rfl, rfl, ⟨_, comma, place⟩, _, rfl, rfl, rfl⟩ |
      ⟨⟨_, n, first⟩, _, rfl, rfl, ⟨_, comma, place⟩, _, rfl, rfl, ⟨_, m, second⟩, _, rfl, rfl, rfl⟩
    · exact notOne n first rfl
    · exact notLeast n first comma place rfl
    · exact notBetween n first comma place m second rfl

/-- A fault of bounds points at the digits of one of their numbers. -/
theorem pointsAt_of_repetition {repetition : Option Repetition} (written : WrittenInDigits tokens)
    (bounded : Bounded tokens repetition) (settled : quantifier? repetition = .error fault) :
    fault.content.PointsAt tokens fault.offset := by
  cases repetition with
  | none => cases settled
  | some repetition =>
      rcases bind_eq_error_iff.mp settled with refused | ⟨_, _, done⟩
      · cases repetition with
        | star | plus | question => cases refused
        | bounds offset contents =>
            exact pointsAt_of_bounds written (bounded offset contents rfl) refused
      · cases done

/-- A mark that can't be settled has a fault that points at one of the tokens it is
written in. -/
theorem pointsAt_of_fails {mark : Mark Atom (Option Repetition)} (written : WrittenInDigits tokens)
    (isWritten : Written tokens mark) (fails : mark.Fails Atom.kind quantifier? fault) :
    fault.content.PointsAt tokens fault.offset := by
  cases mark with
  | atom atom repetition =>
      obtain ⟨among, bounded⟩ := isWritten
      rcases fails with refused | unnamed
      · exact pointsAt_of_repetition written bounded refused
      · obtain ⟨token, mem, rfl, other⟩ := Atom.kind_eq_error unnamed
        exact ⟨token, among mem, rfl, rfl, other⟩
  | closing repetition => exact pointsAt_of_repetition written isWritten fails
  | opening | bar => exact fails.elim

end Faults

/-! ### All faults -/

/-- Every fault of a source that is made of tokens points at what it is about. -/
theorem pointsAt_of_read {source : String} {tokens : Tokens} {fault : Located Fault}
    (tokenized : tokenize source = .ok tokens) (fails : read source = .error fault) :
    fault.content.PointsAt tokens fault.offset := by
  rw [read, tokenized] at fails
  rcases bind_eq_error_iff.mp (show (readMarks [] 0 tokens >>= _) = .error fault from fails) with
    reading | ⟨marks, marked, more⟩
  · exact pointsAt_of_readMarks reading
  · rcases bind_eq_error_iff.mp more with settling | ⟨_, _, done⟩
    · obtain ⟨mark, mem, faulty⟩ := Outline.exists_fails_of_settle _ settling
      rw [Outline.marks_ofMarks (reader.closes marked)] at mem
      exact pointsAt_of_fails (writtenInDigits_of_tokenize tokenized)
        (written_of_readMarks marked mark mem) faulty
    · cases done

/-- Every source that is made of tokens but denotes no expression has a fault; the error
tells the fault and an offset, and at the offset lies what the fault is about. -/
theorem exists_pointsAt_of_compile {source : String} {tokens : Tokens} {error : Error}
    (tokenized : tokenize source = .ok tokens) (fails : compile source = .error error) :
    ∃ fault offset, read source = .error ⟨fault, offset⟩ ∧
      error = .invalidExpression fault.message source offset ∧ fault.PointsAt tokens offset := by
  obtain ⟨fault, unread, rfl⟩ := mapError_eq_error_iff.mp fails
  exact ⟨fault.content, fault.offset, unread, rfl, pointsAt_of_read tokenized unread⟩

/-- Bounds out of order, two groups deep: the error lies at the brace. -/
theorem exists_pointsAt_of_unordered :
    compile "A (B (C{3,1}))*" = .error (.invalidExpression
        "minimum 3 is greater than maximum 1" "A (B (C{3,1}))*" 7) ∧
      ∃ tokens, tokenize "A (B (C{3,1}))*" = .ok tokens ∧
        (Fault.reversedBounds 3 1).PointsAt tokens 7 := by
  have refused : error? (read "A (B (C{3,1}))*") = some ⟨.reversedBounds 3 1, 7⟩ := by
    decide +kernel
  have unread := error?_eq_some_iff.mp refused
  have compiled : compile "A (B (C{3,1}))*" = .error (.invalidExpression
      "minimum 3 is greater than maximum 1" "A (B (C{3,1}))*" 7) := by
    rw [compile, unread]
    rfl
  have scanned : (tokenize "A (B (C{3,1}))*").toOption.isSome = true := by decide +kernel
  cases tokenized : tokenize "A (B (C{3,1}))*" with
  | error fault => simp [tokenized, Except.toOption] at scanned
  | ok tokens =>
      obtain ⟨fault, offset, unread', _, points⟩ := exists_pointsAt_of_compile tokenized compiled
      cases unread.symm.trans unread'
      exact ⟨compiled, tokens, rfl, points⟩

/-- Of two bounds the second one is too large, and no other token is; but the error lies
at the first one. -/
theorem tooLarge_elsewhere :
    compile "A\x7b1,99999999999999999999\x7d" = .error (.invalidExpression
        "repetition bound is too large" "A\x7b1,99999999999999999999\x7d" 2) ∧
      ∃ tokens, tokenize "A\x7b1,99999999999999999999\x7d" = .ok tokens ∧
        ∀ large : Leaf .number, large.token ∈ tokens → maxNumber < large.number →
          large.index = 4 := by
  have refused : error? (read "A\x7b1,99999999999999999999\x7d") = some ⟨.boundTooLarge, 2⟩ := by
    decide +kernel
  have scanned : (tokenize "A\x7b1,99999999999999999999\x7d").toOption =
      some [⟨.identifier, "A", 0⟩, ⟨.leftBrace, "\x7b", 1⟩, ⟨.number, "1", 2⟩, ⟨.comma, ",", 3⟩,
        ⟨.number, "99999999999999999999", 4⟩, ⟨.rightBrace, "\x7d", 24⟩] := by
    decide +kernel
  constructor
  · rw [compile, error?_eq_some_iff.mp refused]
    rfl
  · cases tokenized : tokenize "A\x7b1,99999999999999999999\x7d" with
    | error fault => simp [tokenized, Except.toOption] at scanned
    | ok tokens =>
        obtain rfl := Option.some.inj ((congrArg Except.toOption tokenized).symm.trans scanned)
        refine ⟨_, rfl, fun large mem => ?_⟩
        obtain ⟨value, index⟩ := large
        simp only [Leaf.token, List.mem_cons, List.not_mem_nil, or_false, Token.mk.injEq,
          reduceCtorEq, false_and, true_and, false_or] at mem
        rcases mem with ⟨rfl, rfl⟩ | ⟨rfl, rfl⟩
        · exact fun large => absurd large (by decide +kernel)
        · exact fun _ => rfl

end Expression

end TextGrammar
