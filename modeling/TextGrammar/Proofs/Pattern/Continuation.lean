import TextGrammar.Proofs.Outline.Joining
import TextGrammar.Proofs.Pattern.RoundTrip

/-!
What is read in front of more.

The reader of patterns looks ahead: for the end of a range or of a set, for the
closing brace of bounds. But whatever it has accepted as a whole it reads in the same
way wherever it lies, in front of a bar or a closing parenthesis, and with more groups
opened before it (`readMarks_continued`).
-/

namespace TextGrammar.Pattern

/-! ### Whole glyphs -/

/-- No backslash is left without a character after it. -/
def Undangling (rest : Glyphs) : Prop :=
  ∀ glyph ∈ rest, glyph.content ≠ .dangling

theorem undangling_nil : Undangling [] :=
  nofun

theorem undangling_cons {glyph : Located Glyph} {rest : Glyphs} :
    Undangling (glyph :: rest) ↔ glyph.content ≠ .dangling ∧ Undangling rest :=
  List.forall_mem_cons

/-- An item that is read is no backslash at the end. -/
theorem undangling_of_readSetItem {first : Located Glyph} {rest left : Glyphs} {item : CharClass}
    (read : readSetItem first rest = .ok (item, left)) (whole : Undangling left) :
    Undangling (first :: rest) := by
  unfold readSetItem at read
  grind [Undangling, Glyph.item?]

/-- No item of a set that is read is a backslash at the end. -/
theorem undangling_of_readSetItems {opened : Nat} {rest left : Glyphs} {items : List CharClass}
    (read : readSetItems opened rest = .ok (items, left)) (whole : Undangling left) :
    Undangling rest := by
  fun_induction readSetItems opened rest generalizing items left with
  | case1 => cases read
  | case2 first rest closes =>
      cases read
      exact undangling_cons.mpr ⟨by simp [closes], whole⟩
  | case3 => cases read
  | case4 => cases read
  | case5 first rest _ item middle one items' left' more ih =>
      cases read
      exact undangling_of_readSetItem one (ih more whole)

theorem undangling_of_readSet {opened : Nat} {rest left : Glyphs} {kind : Kind}
    (read : readSet opened rest = .ok (kind, left)) (whole : Undangling left) :
    Undangling rest := by
  simp only [readSet] at read
  split at read
  · cases read
  · rename_i items _ ofItems
    cases read
    have inside := undangling_of_readSetItems ofItems whole
    cases rest with
    | nil => exact undangling_nil
    | cons first rest =>
        simp only [List.head?_cons, Option.any_some, decide_eq_true_eq, List.tail_cons] at inside
        split at inside
        · rename_i caret
          exact undangling_cons.mpr ⟨by simp [caret], inside⟩
        · exact inside

/-- No atom that is read ends in a backslash alone. -/
theorem undangling_of_readAtom {first : Located Glyph} {rest left : Glyphs} {kind : Kind}
    (read : readAtom first rest = .ok (kind, left)) (whole : Undangling left) :
    Undangling (first :: rest) := by
  unfold readAtom at read
  split at read
  · rename_i bracket
    exact undangling_cons.mpr ⟨by simp [bracket], undangling_of_readSet read whole⟩
  · split at read
    · rename_i found
      cases read
      refine undangling_cons.mpr ⟨?_, whole⟩
      intro dangling
      simp [dangling, Glyph.kind?] at found
    · cases read

theorem undangling_of_readDigits {rest : Glyphs} (whole : Undangling (readDigits rest).2) :
    Undangling rest := by
  fun_induction readDigits rest with
  | case1 => exact whole
  | case2 glyph rest c digit ih =>
      refine undangling_cons.mpr ⟨?_, ih whole⟩
      intro dangling
      simp [dangling, Glyph.digit?] at digit
  | case3 => exact whole

theorem undangling_of_readBounds? {rest left : Glyphs} {q : Quantifier}
    (read : readBounds? rest = some (q, left)) (whole : Undangling left) : Undangling rest := by
  apply undangling_of_readDigits
  obtain ⟨min, low, ⟨brace, ends, rfl⟩ | ⟨comma, brace, ends, rfl⟩ |
    ⟨comma, after, max, brace, ends, high, ends', rfl⟩⟩ := readBounds?_eq_some_iff.mp read
  · rw [ends]
    exact undangling_cons.mpr ⟨by simp, whole⟩
  · rw [ends]
    exact undangling_cons.mpr ⟨by simp, undangling_cons.mpr ⟨by simp, whole⟩⟩
  · rw [ends]
    refine undangling_cons.mpr ⟨by simp, undangling_of_readDigits ?_⟩
    rw [ends']
    exact undangling_cons.mpr ⟨by simp, whole⟩

/-- No sign of a quantifier is a backslash. -/
theorem undangling_of_readQuantifier {rest left : Glyphs} {q : Option Quantifier}
    (read : readQuantifier rest = .ok (q, left)) (whole : Undangling left) : Undangling rest := by
  unfold readQuantifier at read
  split at read
  · cases read
    exact undangling_cons.mpr ⟨by simp, whole⟩
  · cases read
    exact undangling_cons.mpr ⟨by simp, whole⟩
  · cases read
    exact undangling_cons.mpr ⟨by simp, whole⟩
  · split at read
    · rename_i bounds
      split at read
      · cases read
      · cases read
        exact undangling_cons.mpr ⟨by simp, undangling_of_readBounds? bounds whole⟩
    · rename_i bounds
      cases read
      exact undangling_cons.mpr ⟨by simp, undangling_of_readBounds? bounds whole⟩
    · cases read
      exact whole
  · cases read
    exact whole

/-- Only whole glyphs are accepted. -/
theorem undangling_of_readMarks {opened : List Nat} {groups : Nat} {rest : Glyphs}
    {marks : List (Mark Kind (Option Quantifier))}
    (read : readMarks opened groups rest = .ok marks) : Undangling rest := by
  induction marks generalizing opened groups rest with
  | nil =>
      obtain ⟨-, rfl⟩ := reader.nil_iff.mp read
      exact undangling_nil
  | cons mark marks ih =>
      obtain ⟨next, step, more⟩ := reads_of_readMarks read
      have whole := ih more
      cases step with
      | opening opens =>
          obtain rfl := opens
          exact undangling_cons.mpr ⟨by simp, whole⟩
      | closing closes repeats =>
          refine undangling_cons.mpr ⟨?_, undangling_of_readQuantifier repeats whole⟩
          rw [show _ = Glyph.plain ')' from closes]
          simp
      | bar bars =>
          refine undangling_cons.mpr ⟨?_, whole⟩
          rw [show _ = Glyph.plain '|' from bars]
          simp
      | atom one repeats =>
          exact undangling_of_readAtom one.2 (undangling_of_readQuantifier repeats whole)

/-! ### Glyphs in front of more -/

/-- The same glyphs, wherever they lie, with more after them. -/
inductive Continued (more : Glyphs) : Glyphs → Glyphs → Prop where
  | done : Continued more [] more
  | glyph {rest rest' : Glyphs} (content : Glyph) (offset offset' : Nat)
      (later : Continued more rest rest') :
      Continued more (⟨content, offset⟩ :: rest) (⟨content, offset'⟩ :: rest')

/-- Glyphs go on alike if their heads are the same and the rests go on alike. -/
theorem continued_cons_iff {more rest rest' : Glyphs} {content : Glyph} {offset : Nat} :
    Continued more (⟨content, offset⟩ :: rest) rest' ↔
      ∃ offset' after, rest' = ⟨content, offset'⟩ :: after ∧ Continued more rest after := by
  constructor
  · rintro (_ | ⟨_, _, offset', later⟩)
    exact ⟨offset', _, rfl, later⟩
  · rintro ⟨offset', after, rfl, later⟩
    exact .glyph content offset offset' later

/-- A text without a backslash at its end is split in the same way in front of more. -/
theorem continued_glyphs {front : Text} {offset : Nat} (whole : Undangling (glyphs offset front))
    (offset' : Nat) (back : Text) :
    Continued (glyphs (offset' + front.size) back) (glyphs offset front)
      (glyphs offset' (front ++ back)) := by
  fun_induction glyphs offset front generalizing offset' with
  | case1 => exact .done
  | case2 => exact absurd rfl (undangling_cons.mp whole).1
  | case3 offset c cs ih =>
      have later := ih (undangling_cons.mp whole).2 (offset' + ('\\'.utf8Size + c.utf8Size))
      rw [List.cons_append, List.cons_append, glyphs, Text.size_cons, Text.size_cons,
        ← Nat.add_assoc '\\'.utf8Size, ← Nat.add_assoc]
      exact .glyph _ _ _ later
  | case4 offset c cs noEnd noEscape ih =>
      have unescaped := ne_backslash noEnd noEscape
      have later := ih (undangling_cons.mp whole).2 (offset' + c.utf8Size)
      rw [List.cons_append, glyphs_cons_of_ne unescaped, Text.size_cons, ← Nat.add_assoc]
      exact .glyph _ _ _ later

section Readers

variable {more : Glyphs} {rest rest' left : Glyphs}

/-- A set isn't closed by what makes no item of it. -/
theorem readSetItems_hyphen_ne_ok (opened offset : Nat) (ended : List CharClass × Glyphs) :
    readSetItems opened [⟨.plain '-', offset⟩] ≠ .ok ended := by
  simp [readSetItems, readSetItem, Glyph.item?]

/-- An item of a set ends where it did if the set is closed after it. -/
theorem readSetItem_continued {content : Glyph} {offset opened : Nat} {item : CharClass}
    {ended : List CharClass × Glyphs} (continued : Continued more rest rest')
    (read : readSetItem ⟨content, offset⟩ rest = .ok (item, left))
    (closed : readSetItems opened left = .ok ended) (offset' : Nat) :
    ∃ left', readSetItem ⟨content, offset'⟩ rest' = .ok (item, left') ∧
      Continued more left left' := by
  unfold readSetItem at read ⊢
  simp only at read ⊢
  split at read
  · cases read
  · split at read
    · cases continued with
      | glyph _ _ _ later =>
          cases later with
          | glyph _ _ _ later =>
              simp only at read ⊢
              split at read
              · rename_i ends
                cases read
                refine ⟨_, if_pos ends, ?_⟩
                exact .glyph _ _ _ (.glyph _ _ _ later)
              · rename_i within
                rw [if_neg within]
                split at read
                · cases read
                · split at read
                  · cases read
                  · rename_i ordered
                    cases read
                    exact ⟨_, if_neg ordered, later⟩
                · cases read
    · rename_i noRange
      cases read
      refine ⟨rest', ?_, continued⟩
      split
      · -- What follows could make a range, but then the set wasn't closed before it.
        cases continued with
        | done => simp [readSetItems] at closed
        | glyph _ _ _ later =>
            cases later with
            | done => exact absurd closed (readSetItems_hyphen_ne_ok _ _ _)
            | glyph _ _ _ later => exact absurd rfl (noRange _ _ _)
      · rfl
  · cases read
    exact ⟨rest', rfl, continued⟩

/-- A set that is closed is read alike in front of more. -/
theorem readSetItems_continued {opened : Nat} {items : List CharClass}
    (continued : Continued more rest rest')
    (read : readSetItems opened rest = .ok (items, left)) (opened' : Nat) :
    ∃ left', readSetItems opened' rest' = .ok (items, left') ∧ Continued more left left' := by
  fun_induction readSetItems opened rest generalizing items left rest' with
  | case1 => cases read
  | case2 first rest closes =>
      cases read
      cases continued with
      | glyph _ _ offset' later =>
          refine ⟨_, ?_, later⟩
          rw [readSetItems, if_pos closes]
  | case3 => cases read
  | case4 => cases read
  | case5 first rest within item middle one items' left' ended ih =>
      cases read
      cases continued with
      | glyph _ _ offset' later =>
          obtain ⟨middle', one', later'⟩ := readSetItem_continued later one ended offset'
          obtain ⟨left', ended', after⟩ := ih later' ended
          exact ⟨left', readSetItems_of_readSetItem within one' ended', after⟩

/-- A set that is closed is read alike in front of more, the sign of its negation
included. -/
theorem readSet_continued {opened : Nat} {kind : Kind} (continued : Continued more rest rest')
    (read : readSet opened rest = .ok (kind, left)) (opened' : Nat) :
    ∃ left', readSet opened' rest' = .ok (kind, left') ∧ Continued more left left' := by
  simp only [readSet] at read ⊢
  split at read
  · cases read
  · rename_i ended
    cases read
    cases continued with
    | done => simp [readSetItems] at ended
    | glyph content offset offset' later =>
        simp only [List.head?_cons, Option.any_some, List.tail_cons] at ended ⊢
        by_cases caret : content = .plain '^'
        · simp only [caret, decide_true, if_true] at ended ⊢
          obtain ⟨left', ended', after⟩ := readSetItems_continued later ended opened'
          rw [ended']
          exact ⟨left', rfl, after⟩
        · simp only [caret, decide_false, Bool.false_eq_true, if_false] at ended ⊢
          obtain ⟨left', ended', after⟩ :=
            readSetItems_continued (.glyph content offset offset' later) ended opened'
          rw [ended']
          exact ⟨left', rfl, after⟩

/-- An atom is read alike in front of more. -/
theorem readAtom_continued {content : Glyph} {offset : Nat} {kind : Kind}
    (continued : Continued more rest rest')
    (read : readAtom ⟨content, offset⟩ rest = .ok (kind, left)) (offset' : Nat) :
    ∃ left', readAtom ⟨content, offset'⟩ rest' = .ok (kind, left') ∧
      Continued more left left' := by
  unfold readAtom at read ⊢
  split at read
  · rename_i bracket
    rw [if_pos bracket]
    exact readSet_continued continued read offset'
  · rename_i alone
    rw [if_neg alone]
    split at read
    · rename_i found
      cases read
      simp only [found]
      exact ⟨rest', rfl, continued⟩
    · cases read

/-! ### Quantifiers in front of more -/

/-- What is left is nothing, or goes on with the next alternative or after a group. -/
def Parts (more : Glyphs) : Prop :=
  ∀ glyph ∈ more.head?, glyph.content = .plain '|' ∨ glyph.content = .plain ')'

/-- What the glyphs go on with is a glyph of their own, unless another part starts there. -/
theorem Continued.of_unparted {content : Glyph} {offset : Nat} (parts : Parts more)
    (continued : Continued more rest (⟨content, offset⟩ :: rest'))
    (unparted : content ≠ .plain '|' ∧ content ≠ .plain ')') :
    ∃ offset' after, rest = ⟨content, offset'⟩ :: after ∧ Continued more after rest' := by
  cases continued with
  | done =>
      rcases parts _ rfl with bar | closing
      · exact absurd bar unparted.1
      · exact absurd closing unparted.2
  | glyph _ offset' _ later => exact ⟨offset', _, rfl, later⟩

theorem parts_nil : Parts [] :=
  nofun

theorem parts_cons {glyph : Glyph} {offset : Nat}
    (part : glyph = .plain '|' ∨ glyph = .plain ')') : Parts (⟨glyph, offset⟩ :: more) := by
  rintro _ ⟨⟩
  exact part

/-- No digits stand at the end of a part. -/
theorem readDigits_of_parts (parts : Parts more) : readDigits more = ([], more) := by
  cases more with
  | nil => rfl
  | cons glyph more =>
      have noDigit : glyph.content.digit? = none := by
        rcases parts glyph rfl with bar | closing
        · rw [bar]
          rfl
        · rw [closing]
          rfl
      simp only [readDigits, noDigit]

/-- Digits are read alike in front of more, where more is no digit. -/
theorem readDigits_continued (parts : Parts more) (continued : Continued more rest rest') :
    (readDigits rest').1 = (readDigits rest).1 ∧
      Continued more (readDigits rest).2 (readDigits rest').2 := by
  induction continued with
  | done =>
      rw [readDigits_of_parts parts]
      exact ⟨rfl, .done⟩
  | glyph content offset offset' later ih =>
      simp only [readDigits]
      cases content.digit? with
      | none => exact ⟨rfl, .glyph content offset offset' later⟩
      | some c => exact ⟨congrArg (c :: ·) ih.1, ih.2⟩

/-- Bounds are carried over by a relation that keeps digits and the signs after them. -/
theorem exists_readBounds?_of_related {R : Glyphs → Glyphs → Prop}
    (digits : ∀ {rest rest'}, R rest rest' →
      (readDigits rest').1 = (readDigits rest).1 ∧ R (readDigits rest).2 (readDigits rest').2)
    (sign : ∀ {c offset rest rest'}, c = ',' ∨ c = '}' → R (⟨.plain c, offset⟩ :: rest) rest' →
      ∃ offset' after, rest' = ⟨.plain c, offset'⟩ :: after ∧ R rest after)
    {q : Quantifier} (related : R rest rest') (read : readBounds? rest = some (q, left)) :
    ∃ left', readBounds? rest' = some (q, left') ∧ R left left' := by
  obtain ⟨same, later⟩ := digits related
  obtain ⟨min, low, ends⟩ := readBounds?_eq_some_iff.mp read
  rw [← same] at low
  rcases ends with ⟨brace, ends, rfl⟩ | ⟨comma, brace, ends, rfl⟩ |
    ⟨comma, after, max, brace, ends, high, ends', rfl⟩
  all_goals
    rw [ends] at later
    obtain ⟨offset, after', endsAlike, later⟩ := sign (by simp) later
  · exact ⟨after', readBounds?_eq_some_iff.mpr ⟨min, low, .inl ⟨offset, endsAlike, rfl⟩⟩, later⟩
  · obtain ⟨brace', left', rfl, behind⟩ := sign (by simp) later
    exact ⟨left', readBounds?_eq_some_iff.mpr
      ⟨min, low, .inr (.inl ⟨offset, brace', endsAlike, rfl⟩)⟩, behind⟩
  · obtain ⟨same', later⟩ := digits later
    rw [← same'] at high
    rw [ends'] at later
    obtain ⟨brace', left', endsAlike', later⟩ := sign (by simp) later
    exact ⟨left', readBounds?_eq_some_iff.mpr ⟨min, low,
      .inr (.inr ⟨offset, after', max, brace', endsAlike, high, endsAlike', rfl⟩)⟩, later⟩

/-- Bounds are read alike in front of the next part. -/
theorem readBounds?_continued {q : Quantifier} (parts : Parts more)
    (continued : Continued more rest rest') (read : readBounds? rest = some (q, left)) :
    ∃ left', readBounds? rest' = some (q, left') ∧ Continued more left left' :=
  exists_readBounds?_of_related (readDigits_continued parts) (fun _ => continued_cons_iff.mp)
    continued read

/-- No bounds are completed by what follows. -/
theorem readBounds?_eq_none_continued (parts : Parts more) (continued : Continued more rest rest')
    (noBounds : readBounds? rest = none) : readBounds? rest' = none := by
  refine Option.eq_none_iff_forall_ne_some.mpr ?_
  rintro ⟨q, left'⟩ read
  -- The same relation, looked at from what is read in front of more.
  obtain ⟨left, found, -⟩ := exists_readBounds?_of_related
    (R := fun rest' rest => Continued more rest rest')
    (fun continued => ⟨(readDigits_continued parts continued).1.symm,
      (readDigits_continued parts continued).2⟩)
    (fun sign continued => continued.of_unparted parts (by rcases sign with rfl | rfl <;> decide))
    continued read
  rw [noBounds] at found
  cases found

/-- No part begins with the sign of a quantifier. -/
theorem Parts.avoids_signs (parts : Parts more) : Avoids signs more := by
  intro glyph head c sign same
  rcases parts glyph head with bar | closing
  · cases same.symm.trans bar
    exact absurd sign (by decide)
  · cases same.symm.trans closing
    exact absurd sign (by decide)

/-- A quantifier, or that there is none, is read alike in front of the next part. -/
theorem readQuantifier_continued {q : Option Quantifier} (parts : Parts more)
    (continued : Continued more rest rest') (read : readQuantifier rest = .ok (q, left)) :
    ∃ left', readQuantifier rest' = .ok (q, left') ∧ Continued more left left' := by
  cases continued with
  | done =>
      cases read
      exact ⟨more, readQuantifier_eq_none parts.avoids_signs, .done⟩
  | @glyph after after' content offset offset' later =>
      unfold readQuantifier at read ⊢
      split at read
      case h_1 same | h_2 same | h_3 same =>
        cases same
        cases read
        exact ⟨after', rfl, later⟩
      case h_4 same =>
        cases same
        simp only
        split at read
        · rename_i bounds
          obtain ⟨left', bounds', goesOn⟩ := readBounds?_continued parts later bounds
          rw [bounds']
          split at read
          · cases read
          · rename_i ordered
            cases read
            exact ⟨left', if_neg ordered, goesOn⟩
        · rename_i bounds
          obtain ⟨left', bounds', goesOn⟩ := readBounds?_continued parts later bounds
          cases read
          rw [bounds']
          exact ⟨left', rfl, goesOn⟩
        · rename_i noBounds
          cases read
          rw [readBounds?_eq_none_continued parts later noBounds]
          exact ⟨_, rfl, .glyph _ _ _ later⟩
      case h_5 noStar noPlus noQuestion noBrace =>
        cases read
        have avoids : Avoids signs (⟨content, offset'⟩ :: after') := by
          rw [avoids_cons]
          intro c sign same
          subst same
          simp only [signs, List.mem_cons, List.not_mem_nil, or_false] at sign
          rcases sign with rfl | rfl | rfl | rfl
          · exact noStar _ _ rfl
          · exact noPlus _ _ rfl
          · exact noQuestion _ _ rfl
          · exact noBrace _ _ rfl
        exact ⟨_, readQuantifier_eq_none avoids, .glyph content offset offset' later⟩

end Readers

/-! ### Marks in front of more -/

/-- What is accepted as a whole is read as the same marks wherever it lies, in front of
another part and behind other groups, and reading goes on with that part. -/
theorem readMarks_continued {more : Glyphs} (parts : Parts more) {base : List Nat} {shift : Nat}
    {marks others : List (Mark Kind (Option Quantifier))} {opened opened' : List Nat}
    {groups : Nat} {rest rest' : Glyphs} (continued : Continued more rest rest')
    (read : readMarks opened groups rest = .ok marks) (depth : opened'.length = opened.length)
    (goesOn : readMarks base (groups + Mark.groups marks + shift) more = .ok others) :
    readMarks (opened' ++ base) (groups + shift) rest' =
      .ok (marks.map (Mark.renumber (· + shift)) ++ others) := by
  -- Parentheses open at other offsets now; for what is accepted only their number counts.
  induction marks generalizing opened opened' groups rest rest' with
  | nil =>
      obtain ⟨rfl, rfl⟩ := reader.nil_iff.mp read
      obtain rfl := List.length_eq_zero_iff.mp depth
      cases continued
      exact goesOn
  | cons mark marks ih =>
      obtain ⟨next, step, later⟩ := reads_of_readMarks read
      cases step with
      | @opening _ _ offset _ _ opens =>
          obtain rfl := opens
          obtain ⟨offset', after, rfl, behind⟩ := continued_cons_iff.mp continued
          have depth : (offset' :: opened').length = (offset :: opened).length :=
            congrArg (· + 1) depth
          rw [Mark.groups_opening, ← Nat.add_assoc, Nat.add_right_comm groups] at goesOn
          have inside := ih behind later depth goesOn
          rw [Nat.add_right_comm] at inside
          have opens := readMarks_opening offset' inside
          rw [Nat.add_right_comm groups shift 1] at opens
          exact opens
      | @closing opened _ outer token _ _ _ closes repeats =>
          obtain ⟨content, offset⟩ := token
          obtain rfl : content = .plain ')' := closes
          obtain ⟨offset', after, rfl, behind⟩ := continued_cons_iff.mp continued
          obtain ⟨left', repeats', behind⟩ := readQuantifier_continued parts behind repeats
          obtain ⟨outer', opened', rfl⟩ := List.exists_cons_of_length_eq_add_one depth
          exact readMarks_closing outer' offset' repeats'
            (ih behind later (Nat.add_right_cancel depth) goesOn)
      | @bar _ _ token _ bars =>
          obtain ⟨content, offset⟩ := token
          obtain rfl : content = .plain '|' := bars
          obtain ⟨offset', after, rfl, behind⟩ := continued_cons_iff.mp continued
          exact readMarks_bar offset' (ih behind later depth goesOn)
      | @atom _ _ first _ _ _ _ _ one repeats =>
          obtain ⟨content, offset⟩ := first
          obtain ⟨offset', after, rfl, behind⟩ := continued_cons_iff.mp continued
          obtain ⟨middle', one', behind⟩ := readAtom_continued behind one.2 offset'
          obtain ⟨left', repeats', behind⟩ := readQuantifier_continued parts behind repeats
          exact readMarks_of_reads (.atom ⟨one.1, one'⟩ repeats') (ih behind later depth goesOn)

section Texts

variable {text back : Text} {marks others : List (Mark Kind (Option Quantifier))}

/-- A text that is accepted as a whole is read as the same marks in front of another part. -/
theorem readMarks_append (read : readMarks [] 0 (glyphs 0 text) = .ok marks) {base : List Nat}
    (shift offset : Nat) (parts : Parts (glyphs (offset + text.size) back))
    (goesOn : readMarks base (Mark.groups marks + shift) (glyphs (offset + text.size) back) =
      .ok others) :
    readMarks base shift (glyphs offset (text ++ back)) =
      .ok (marks.map (Mark.renumber (· + shift)) ++ others) := by
  have continued := continued_glyphs (undangling_of_readMarks read) offset back
  rw [← Nat.zero_add (Mark.groups marks)] at goesOn
  have whole := readMarks_continued parts continued read (show [].length = [].length from rfl) goesOn
  rwa [List.nil_append, Nat.zero_add] at whole

/-- A text that is accepted as a whole is read as the same marks behind other groups. -/
theorem readMarks_shift (read : readMarks [] 0 (glyphs 0 text) = .ok marks) (shift offset : Nat) :
    readMarks [] shift (glyphs offset text) = .ok (marks.map (Mark.renumber (· + shift))) := by
  have ends : readMarks [] (Mark.groups marks + shift) (glyphs (offset + text.size) []) = .ok [] :=
    reader.nil_iff.mpr ⟨rfl, rfl⟩
  have parts : Parts (glyphs (offset + text.size) []) := parts_nil
  have whole := readMarks_append read shift offset parts ends
  rwa [List.append_nil, List.append_nil] at whole

end Texts

end TextGrammar.Pattern
