import TextGrammar.Proofs.Pattern.Printing
import TextGrammar.Proofs.Pattern.Scanning

/-!
What a pattern source is blamed for.

The reader nests its work: a set is read as a whole, a group up to its end. A scan has
less to keep in mind, but at every point it is about to meet the same fault as the
reader (`Scan.run_eq_error?`). So a source compiles if a scan meets no fault, and else it
is blamed for the first one (`compile_eq_error_iff`).
-/

namespace TextGrammar.Pattern

/-- The reader where a scan is: what is left to read behind an atom or in a set before the
next mark, and the marks after that. -/
def readOn (scan : Scan) (groups : Nat) (rest : Glyphs) :
    Except (Located Fault) (List (Mark Kind (Option Quantifier))) :=
  match scan.mode with
  | .start => readMarks scan.opened groups rest
  | .repeatable =>
      (readQuantifier rest).bind fun quantified => readMarks scan.opened groups quantified.2
  | .inSet set =>
      (readSetItems set rest).bind fun ended =>
        (readQuantifier ended.2).bind fun quantified => readMarks scan.opened groups quantified.2

/-! ### Marks -/

section Marks

variable {opened : List Nat} {groups offset : Nat} {rest : Glyphs}

/-- A parenthesis that opens is kept in mind, and a group begins. -/
theorem error?_readMarks_opening :
    error? (readMarks opened groups (⟨.plain '(', offset⟩ :: rest)) =
      error? (readOn ⟨offset :: opened, .start⟩ (groups + 1) rest) := by
  rw [readMarks, error?_map]
  rfl

/-- A parenthesis that closes is at fault where none is open. -/
theorem error?_readMarks_unmatched :
    error? (readMarks [] groups (⟨.plain ')', offset⟩ :: rest)) =
      some ⟨.unmatchedClosing, offset⟩ := by
  rw [readMarks]
  rfl

/-- A parenthesis that closes a group leaves it behind like an atom. -/
theorem error?_readMarks_closing (outer : Nat) :
    error? (readMarks (outer :: opened) groups (⟨.plain ')', offset⟩ :: rest)) =
      error? (readOn ⟨opened, .repeatable⟩ groups rest) := by
  rw [readMarks, readOn]
  cases readQuantifier rest with
  | error fault => rfl
  | ok quantified => exact error?_map _ _

/-- An alternative begins like a sequence. -/
theorem error?_readMarks_bar :
    error? (readMarks opened groups (⟨.plain '|', offset⟩ :: rest)) =
      error? (readOn ⟨opened, .start⟩ groups rest) := by
  rw [readMarks, error?_map]
  rfl

/-- Any other glyph begins an atom, and the reader goes on behind it. -/
theorem error?_readMarks_atom {first : Located Glyph}
    (unstructured : first.content ∉ [.plain '(', .plain ')', .plain '|']) :
    error? (readMarks opened groups (first :: rest)) =
      error? ((readAtom first rest).bind fun one => readOn ⟨opened, .repeatable⟩ groups one.2) := by
  obtain ⟨glyph, offset⟩ := first
  simp only [List.mem_cons, List.not_mem_nil, or_false, not_or] at unstructured
  rw [readMarks]
  · cases readAtom ⟨glyph, offset⟩ rest with
    | error fault => rfl
    | ok one =>
        obtain ⟨kind, left⟩ := one
        simp only [readOn, Except.bind]
        cases readQuantifier left with
        | error fault => rfl
        | ok quantified => exact error?_map _ _
  all_goals
    rintro _ ⟨⟩
    simp at unstructured

/-- Any other glyph is an atom of its own. -/
theorem error?_readMarks_kind {first : Located Glyph}
    (unstructured : first.content ∉ [.plain '(', .plain ')', .plain '|', .plain '['])
    (whole : first.content ≠ .dangling) :
    error? (readMarks opened groups (first :: rest)) =
      error? (readOn ⟨opened, .repeatable⟩ groups rest) := by
  obtain ⟨kind, found⟩ : ∃ kind, first.content.kind? = some kind := by
    unfold Glyph.kind?
    split
    case h_5 dangling => exact absurd dangling whole
    all_goals exact ⟨_, rfl⟩
  simp only [List.mem_cons, List.not_mem_nil, or_false, not_or] at unstructured
  obtain ⟨noOpening, noClosing, noBar, noSet⟩ := unstructured
  have noSign : first.content ∉ [.plain '(', .plain ')', .plain '|'] := by
    simp only [List.mem_cons, List.not_mem_nil, or_false, not_or]
    exact ⟨noOpening, noClosing, noBar⟩
  rw [error?_readMarks_atom noSign, readAtom, if_neg noSet, found]
  rfl

/-- A backslash at the end of a source is at fault. -/
theorem error?_readMarks_dangling :
    error? (readMarks opened groups (⟨.dangling, offset⟩ :: rest)) =
      some ⟨.trailingBackslash, offset⟩ := by
  rw [error?_readMarks_atom (by simp)]
  rfl

/-- A bracket opens a set, which may begin with the sign of its negation. -/
theorem error?_readMarks_set :
    error? (readMarks opened groups (⟨.plain '[', offset⟩ :: rest)) =
      error? (readOn ⟨opened, .inSet offset⟩ groups
        (if rest.head?.any fun first => first.content = .plain '^' then rest.tail else rest)) := by
  rw [error?_readMarks_atom (by simp), readAtom, if_pos rfl, readSet]
  simp only [readOn]
  cases readSetItems offset
    (if rest.head?.any fun first => first.content = .plain '^' then rest.tail else rest) <;> rfl

/-- In a set the reader goes on behind each item. -/
theorem error?_readOn_item {set : Nat} {first : Located Glyph}
    (within : first.content ≠ .plain ']') :
    error? (readOn ⟨opened, .inSet set⟩ groups (first :: rest)) =
      error? ((readSetItem first rest).bind fun one =>
        readOn ⟨opened, .inSet set⟩ groups one.2) := by
  simp only [readOn]
  rw [readSetItems, if_neg within]
  cases readSetItem first rest with
  | error fault => rfl
  | ok one =>
      obtain ⟨item, left⟩ := one
      simp only [Except.bind]
      cases readSetItems set left <;> rfl

end Marks

/-! ### Glyphs of what is left -/

section Glyphs

variable {offset : Nat} {text rest : Text} {next : Remainder}

/-- A character that is no backslash stands for itself, and is the only one to do so. -/
theorem glyphs_eq_plain_iff {c : Char} (unescaped : c ≠ '\\') {here : Nat} {more : Glyphs} :
    glyphs offset text = ⟨.plain c, here⟩ :: more ↔
      here = offset ∧ ∃ rest, text = c :: rest ∧ more = glyphs (offset + c.utf8Size) rest := by
  constructor
  · intro same
    unfold glyphs at same
    split at same
    · cases same
    · simp at same
    · simp at same
    · cases same
      exact ⟨rfl, _, rfl, rfl⟩
  · rintro ⟨rfl, rest, rfl, rfl⟩
    exact glyphs_cons_of_ne unescaped here rest

/-- A character is no other sign than the one that it is. -/
theorem ne_plain_of_ne {c d : Char} (other : c ≠ d) (unescaped : d ≠ '\\')
    {first : Located Glyph} {more : Glyphs} (parts : glyphs offset (c :: rest) = first :: more) :
    first.content ≠ .plain d := by
  obtain ⟨glyph, here⟩ := first
  rintro rfl
  obtain ⟨-, _, same, -⟩ := (glyphs_eq_plain_iff unescaped).mp parts
  exact other (List.cons.inj same).1

theorem glyphs_ne_nil (c : Char) (rest : Text) : glyphs offset (c :: rest) ≠ [] := by
  unfold glyphs
  split <;> simp_all

/-- What a scan takes for an item of a set is one glyph to the reader, and the same item. -/
theorem exists_glyph_of_member? {item : CharClass}
    (found : member? offset text = some (item, next)) :
    ∃ glyph, glyphs offset text = ⟨glyph, offset⟩ :: glyphs next.offset next.content ∧
      glyph.item? = some item := by
  unfold member? at found
  split at found
  · cases found
  · cases found
  · rename_i c rest
    cases found
    refine ⟨.escaped c, by rw [glyphs], ?_⟩
    split
    · rename_i backspace
      rw [backspace]
      rfl
    · simp [Glyph.item?]
  · rename_i c rest noEnd noEscape
    cases found
    exact ⟨.plain c, glyphs_cons_of_ne (ne_backslash noEnd noEscape) offset rest, rfl⟩

/-- What is no item of a set is a backslash at the end. -/
theorem glyphs_of_member?_eq_none {c : Char} (none : member? offset (c :: rest) = none) :
    glyphs offset (c :: rest) = [⟨.dangling, offset⟩] := by
  unfold member? at none
  split at none
  · rename_i same
    cases same
  · rename_i same
    rw [same]
    rfl
  · cases none
  · cases none

/-! ### Sets -/

/-- The reader gets as far as a scan, or meets the same fault. -/
def Tracks {α : Type} (read : Except (Located Fault) (α × Glyphs))
    (scanned : Except (Located Fault) Remainder) : Prop :=
  match scanned with
  | .error fault => read = .error fault
  | .ok next => ∃ value, read = .ok (value, glyphs next.offset next.content)

/-- Behind a character and a hyphen the reader takes a range, unless the set ends there. -/
theorem tracks_range {glyph : Glyph} {low : Char} (literal : glyph.item? = some (.literal low))
    (start : Nat) (c : Char) :
    Tracks (readSetItem ⟨glyph, start⟩ (glyphs offset ('-' :: c :: rest)))
      (scanRange start low ⟨'-' :: c :: rest, offset⟩) := by
  have hyphen : glyphs offset ('-' :: c :: rest) =
      ⟨.plain '-', offset⟩ :: glyphs (offset + '-'.utf8Size) (c :: rest) :=
    glyphs_cons_of_ne (by decide) offset _
  by_cases closes : c = ']'
  · subst closes
    have bracket : glyphs (offset + '-'.utf8Size) (']' :: rest) =
        ⟨.plain ']', offset + '-'.utf8Size⟩ :: glyphs _ rest :=
      glyphs_cons_of_ne (by decide) _ _
    refine ⟨.literal low, ?_⟩
    simp only [readSetItem, literal, hyphen, bracket, if_true]
  · simp only [readSetItem, literal, hyphen, scanRange, if_neg closes]
    generalize offset + '-'.utf8Size = last
    cases found : member? last (c :: rest) with
    | none =>
        rw [glyphs_of_member?_eq_none found]
        rfl
    | some member =>
        obtain ⟨item, next⟩ := member
        obtain ⟨glyph', whole, meant⟩ := exists_glyph_of_member? found
        have within : glyph' ≠ .plain ']' := ne_plain_of_ne closes (by decide) whole
        simp only [whole, meant, if_neg within]
        cases item with
        | literal high =>
            by_cases reversed : high < low
            · simp only [if_pos reversed]
              rfl
            · simp only [if_neg reversed]
              exact ⟨_, rfl⟩
        | _ => rfl

/-- Behind a character the reader looks for a range from it. -/
theorem tracks_scanRange {glyph : Glyph} {low : Char}
    (literal : glyph.item? = some (.literal low)) (start : Nat) :
    Tracks (readSetItem ⟨glyph, start⟩ (glyphs offset text))
      (scanRange start low ⟨text, offset⟩) := by
  by_cases ranged : ∃ c rest, text = '-' :: c :: rest
  · obtain ⟨c, rest, rfl⟩ := ranged
    exact tracks_range literal start c
  · have alone : scanRange start low ⟨text, offset⟩ = .ok ⟨text, offset⟩ := by
      unfold scanRange
      split
      · exact absurd ⟨_, _, ‹_›⟩ ranged
      · rfl
    rw [alone]
    refine ⟨.literal low, ?_⟩
    simp only [readSetItem, literal]
    split
    · rename_i last left same
      obtain ⟨-, rest, rfl, more⟩ := (glyphs_eq_plain_iff (by decide)).mp same
      cases rest with
      | nil => cases more
      | cons c rest => exact absurd ⟨c, rest, rfl⟩ ranged
    · rfl

/-- The reader takes the same item of a set as the scan. -/
theorem tracks_scanItem {first : Located Glyph} {more : Glyphs}
    (parts : glyphs offset text = first :: more) :
    Tracks (readSetItem first more) (scanItem offset text) := by
  unfold scanItem
  split
  · rename_i none
    cases text with
    | nil => cases parts
    | cons c rest =>
        rw [glyphs_of_member?_eq_none none] at parts
        cases parts
        rfl
  · rename_i low next found
    obtain ⟨glyph, whole, literal⟩ := exists_glyph_of_member? found
    cases whole.symm.trans parts
    exact tracks_scanRange literal offset
  · rename_i item next noLiteral found
    obtain ⟨glyph, whole, alone⟩ := exists_glyph_of_member? found
    cases whole.symm.trans parts
    refine ⟨item, ?_⟩
    cases item with
    | literal low => exact absurd rfl (noLiteral low)
    | _ => simp only [readSetItem, alone]

/-! ### Bounds -/

/-- Where no digit stands there are no digits to read. -/
theorem readDigits_of_not_isDigit {c : Char} (noDigit : ¬ c.isDigit = true) :
    readDigits (glyphs offset (c :: rest)) = ([], glyphs offset (c :: rest)) := by
  cases written : glyphs offset (c :: rest) with
  | nil => rfl
  | cons glyph more =>
      have none : glyph.content.digit? = none := by
        obtain ⟨content, here⟩ := glyph
        cases content with
        | plain d =>
            refine if_neg fun isDigit => ?_
            have unescaped : d ≠ '\\' := by
              rintro rfl
              exact absurd isDigit (by decide)
            obtain ⟨-, _, same, -⟩ := (glyphs_eq_plain_iff unescaped).mp written
            rw [(List.cons.inj same).1] at noDigit
            exact noDigit isDigit
        | escaped | dangling => rfl
      simp only [readDigits, none]

/-- The reader takes the digits that a text begins with. -/
theorem readDigits_glyphs (offset : Nat) (text : Text) :
    readDigits (glyphs offset text) =
      (text.takeWhile Char.isDigit,
        glyphs (offset + Text.size (text.takeWhile Char.isDigit))
          (text.dropWhile Char.isDigit)) := by
  induction text generalizing offset with
  | nil => rfl
  | cons c rest ih =>
      by_cases isDigit : c.isDigit = true
      · have unescaped : c ≠ '\\' := by
          rintro rfl
          exact absurd isDigit (by decide)
        rw [glyphs_cons_of_ne unescaped, List.takeWhile_cons_of_pos isDigit,
          List.dropWhile_cons_of_pos isDigit, Text.size_cons, ← Nat.add_assoc]
        simp only [readDigits, Glyph.digit?, if_pos isDigit, ih]
      · rw [List.takeWhile_cons_of_neg isDigit, List.dropWhile_cons_of_neg isDigit,
          readDigits_of_not_isDigit isDigit]
        rfl

/-- A number that a scan takes is one to the reader, which stands behind it then. -/
theorem readDigits_of_scanNumber? {here : Remainder} {n : Nat}
    (scanned : scanNumber? here = some (n, next)) :
    number? (readDigits (glyphs here.offset here.content)).1 = some n ∧
      (readDigits (glyphs here.offset here.content)).2 = glyphs next.offset next.content := by
  obtain ⟨value, number, same⟩ := Option.map_eq_some_iff.mp scanned
  cases same
  rw [readDigits_glyphs]
  exact ⟨number, rfl⟩

/-- A number to the reader is one that a scan takes. -/
theorem scanNumber?_of_readDigits {n : Nat}
    (read : number? (readDigits (glyphs offset text)).1 = some n) :
    ∃ next, scanNumber? ⟨text, offset⟩ = some (n, next) ∧
      (readDigits (glyphs offset text)).2 = glyphs next.offset next.content := by
  rw [readDigits_glyphs] at read ⊢
  exact ⟨_, Option.map_eq_some_iff.mpr ⟨n, read, rfl⟩, rfl⟩

/-- Bounds that a scan takes are bounds to the reader. -/
theorem readBounds?_of_scanBounds? {q : Quantifier}
    (scanned : scanBounds? ⟨text, offset⟩ = some (q, next)) :
    readBounds? (glyphs offset text) = some (q, glyphs next.offset next.content) := by
  have brace (here : Nat) (rest : Text) : glyphs here ('}' :: rest) =
      ⟨.plain '}', here⟩ :: glyphs (here + '}'.utf8Size) rest :=
    glyphs_cons_of_ne (by decide) here rest
  have comma (here : Nat) (rest : Text) : glyphs here (',' :: rest) =
      ⟨.plain ',', here⟩ :: glyphs (here + ','.utf8Size) rest :=
    glyphs_cons_of_ne (by decide) here rest
  obtain ⟨⟨min, ⟨content, here⟩⟩, low, goesOn⟩ := Option.bind_eq_some_iff.mp scanned
  obtain ⟨number, left⟩ := readDigits_of_scanNumber? low
  rw [readBounds?_eq_some_iff]
  refine ⟨min, number, ?_⟩
  simp only at left goesOn
  rw [left]
  split at goesOn
  · cases goesOn
    exact .inl ⟨here, brace here _, rfl⟩
  · cases goesOn
    exact .inr (.inl ⟨here, _, by rw [comma, brace], rfl⟩)
  · obtain ⟨⟨max, ⟨content', here'⟩⟩, high, ends⟩ := Option.bind_eq_some_iff.mp goesOn
    obtain ⟨number', left'⟩ := readDigits_of_scanNumber? high
    simp only at left' ends
    split at ends
    · cases ends
      exact .inr (.inr ⟨here, _, max, here', comma here _, number', left'.trans (brace _ _), rfl⟩)
    · cases ends
  · cases goesOn

/-- Where the reader finds bounds, so does a scan. -/
theorem scanBounds?_of_readBounds? {q : Quantifier} {left : Glyphs}
    (read : readBounds? (glyphs offset text) = some (q, left)) :
    ∃ next, scanBounds? ⟨text, offset⟩ = some (q, next) := by
  have brace : '}' ≠ '\\' := by decide
  have comma : ',' ≠ '\\' := by decide
  obtain ⟨min, number, ends⟩ := readBounds?_eq_some_iff.mp read
  obtain ⟨⟨content, here⟩, low, left⟩ := scanNumber?_of_readDigits number
  simp only at left
  rw [left] at ends
  unfold scanBounds?
  rw [low, Option.bind_some]
  rcases ends with ⟨_, ends, rfl⟩ | ⟨_, _, ends, rfl⟩ | ⟨_, after, max, _, ends, high, ends', rfl⟩
  · obtain ⟨-, rest, rfl, -⟩ := (glyphs_eq_plain_iff brace).mp ends
    exact ⟨_, rfl⟩
  · obtain ⟨-, rest, rfl, behind⟩ := (glyphs_eq_plain_iff comma).mp ends
    obtain ⟨-, rest, rfl, -⟩ := (glyphs_eq_plain_iff brace).mp behind.symm
    exact ⟨_, rfl⟩
  · obtain ⟨-, rest, rfl, rfl⟩ := (glyphs_eq_plain_iff comma).mp ends
    obtain ⟨⟨content', here'⟩, high, left'⟩ := scanNumber?_of_readDigits high
    obtain ⟨-, rest', rfl, -⟩ := (glyphs_eq_plain_iff brace).mp (left'.symm.trans ends')
    simp only
    split <;> rename_i same
    · cases same
    · -- A digit follows the comma, so the bounds don't end there.
      cases same
      cases high
    · cases same
      rw [high]
      exact ⟨_, rfl⟩
    · exact absurd rfl (same _)

/-! ### One step -/

variable {opened : List Nat} {groups : Nat} {c : Char}

/-- What is read comes to the fault that a scan has met, or to the same fault as the reader
where the scan has got to. -/
def Agrees (read : Option (Located Fault))
    (stepped : Except (Located Fault) (Scan × Remainder)) : Prop :=
  match stepped with
  | .error fault => read = some fault
  | .ok (scan, next) => ∃ groups, read = error? (readOn scan groups (glyphs next.offset next.content))

/-- A caret at the start of a set is passed over. -/
theorem agrees_set (set here : Nat) (rest : Text) :
    Agrees
      (error? (readOn ⟨opened, .inSet set⟩ groups
        (if (glyphs here rest).head?.any fun first => first.content = .plain '^' then
          (glyphs here rest).tail else glyphs here rest)))
      (match rest with
        | '^' :: items => .ok (⟨opened, .inSet set⟩, ⟨items, here + '^'.utf8Size⟩)
        | _ => .ok (⟨opened, .inSet set⟩, ⟨rest, here⟩)) := by
  by_cases negated : ∃ items, rest = '^' :: items
  · obtain ⟨items, rfl⟩ := negated
    have caret : glyphs here ('^' :: items) = ⟨.plain '^', here⟩ :: glyphs _ items :=
      glyphs_cons_of_ne (by decide) here items
    exact ⟨groups, by simp [caret]⟩
  · have plain : ¬ ((glyphs here rest).head?.any fun first => first.content = .plain '^') := by
      rw [Option.any_eq_true]
      rintro ⟨⟨glyph, offset⟩, head, caret⟩
      obtain rfl : glyph = .plain '^' := of_decide_eq_true caret
      obtain ⟨more, written⟩ := List.head?_eq_some_iff.mp head
      obtain ⟨-, items, rfl, -⟩ := (glyphs_eq_plain_iff (by decide)).mp written
      exact negated ⟨items, rfl⟩
    rw [if_neg plain]
    split
    · exact absurd ⟨_, rfl⟩ negated
    · exact ⟨groups, rfl⟩

/-- Before an atom, reader and scan agree on what the next character leads to. -/
theorem agrees_outside (c : Char) :
    Agrees (error? (readMarks opened groups (glyphs offset (c :: rest))))
      (Scan.outside opened offset c rest) := by
  unfold Scan.outside
  simp only
  split
  · rw [glyphs_cons_of_ne (by decide), error?_readMarks_opening]
    exact ⟨_, rfl⟩
  · rw [glyphs_cons_of_ne (by decide)]
    split
    · exact error?_readMarks_unmatched
    · rw [error?_readMarks_closing]
      exact ⟨_, rfl⟩
  · rw [glyphs_cons_of_ne (by decide), error?_readMarks_bar]
    exact ⟨_, rfl⟩
  · rw [glyphs_cons_of_ne (by decide), error?_readMarks_set]
    exact agrees_set offset _ rest
  · split
    · exact error?_readMarks_dangling
    · rename_i escaped rest
      rw [glyphs, error?_readMarks_kind (by simp) (by simp)]
      exact ⟨groups, rfl⟩
  · rename_i noOpening noClosing noBar noSet unescaped
    have unstructured : Glyph.plain c ∉ [.plain '(', .plain ')', .plain '|', .plain '['] := by
      simpa using ⟨noOpening, noClosing, noBar, noSet⟩
    rw [glyphs_cons_of_ne unescaped, error?_readMarks_kind unstructured (by simp)]
    exact ⟨groups, rfl⟩

/-- Where no quantifier is read, the reader goes on with the next mark. -/
theorem agrees_of_unquantified (c : Char)
    (none : readQuantifier (glyphs offset (c :: rest)) = .ok (none, glyphs offset (c :: rest))) :
    Agrees (error? (readOn ⟨opened, .repeatable⟩ groups (glyphs offset (c :: rest))))
      (Scan.outside opened offset c rest) := by
  simp only [readOn, none]
  exact agrees_outside c

/-- Behind an atom, reader and scan agree on what the next character leads to. -/
theorem agrees_behindAtom (c : Char) :
    Agrees (error? (readOn ⟨opened, .repeatable⟩ groups (glyphs offset (c :: rest))))
      (Scan.behindAtom opened offset c rest) := by
  unfold Scan.behindAtom
  simp only
  split
  case h_1 | h_2 | h_3 =>
    rw [glyphs_cons_of_ne (by decide)]
    exact ⟨groups, rfl⟩
  case h_4 =>
    have brace : glyphs offset ('\x7b' :: rest) = ⟨.plain '\x7b', offset⟩ :: glyphs _ rest :=
      glyphs_cons_of_ne (by decide) offset rest
    split
    · rename_i min max left scanned
      rw [brace]
      simp only [readOn, readQuantifier, readBounds?_of_scanBounds? scanned]
      by_cases reversed : max < min
      · simp only [if_pos reversed]
        rfl
      · simp only [if_neg reversed]
        exact ⟨groups, rfl⟩
    · rename_i min left scanned
      rw [brace]
      simp only [readOn, readQuantifier, readBounds?_of_scanBounds? scanned]
      exact ⟨groups, rfl⟩
    · rename_i noBounds
      have none : readBounds? (glyphs (offset + '\x7b'.utf8Size) rest) = none := by
        refine Option.eq_none_iff_forall_ne_some.mpr ?_
        rintro ⟨q, left⟩ read
        obtain ⟨next, scanned⟩ := scanBounds?_of_readBounds? read
        exact absurd (noBounds.symm.trans scanned) (by simp)
      apply agrees_of_unquantified
      rw [brace]
      simp only [readQuantifier, none]
  case h_5 noStar noPlus noQuestion noBrace =>
    apply agrees_of_unquantified
    apply readQuantifier_eq_none
    intro glyph head sign mem
    obtain ⟨more, written⟩ := List.head?_eq_some_iff.mp head
    simp only [signs, List.mem_cons, List.not_mem_nil, or_false] at mem
    rcases mem with rfl | rfl | rfl | rfl
    · exact ne_plain_of_ne noStar (by decide) written
    · exact ne_plain_of_ne noPlus (by decide) written
    · exact ne_plain_of_ne noQuestion (by decide) written
    · exact ne_plain_of_ne noBrace (by decide) written

/-- In a set, reader and scan agree on what the next character leads to. -/
theorem agrees_inside (set : Nat) (c : Char) :
    Agrees (error? (readOn ⟨opened, .inSet set⟩ groups (glyphs offset (c :: rest))))
      (Scan.inside opened set offset c rest) := by
  unfold Scan.inside
  by_cases closes : c = ']'
  · subst closes
    rw [if_pos rfl, glyphs_cons_of_ne (by decide)]
    refine ⟨groups, ?_⟩
    simp only [readOn]
    rw [readSetItems, if_pos rfl]
    rfl
  · rw [if_neg closes]
    cases parts : glyphs offset (c :: rest) with
    | nil => simp [glyphs_ne_nil] at parts
    | cons first more =>
        have within : first.content ≠ .plain ']' := ne_plain_of_ne closes (by decide) parts
        have tracks := tracks_scanItem parts
        rw [error?_readOn_item within]
        cases scanned : scanItem offset (c :: rest) with
        | error fault =>
            rw [scanned] at tracks
            rw [show readSetItem first more = .error fault from tracks]
            rfl
        | ok next =>
            rw [scanned] at tracks
            obtain ⟨item, read⟩ := tracks
            rw [read]
            exact ⟨groups, rfl⟩

/-- A scan and the reader agree at every step. -/
theorem agrees_step (scan : Scan) (groups offset : Nat) (c : Char) (rest : Text) :
    Agrees (error? (readOn scan groups (glyphs offset (c :: rest)))) (scan.step offset c rest) := by
  obtain ⟨opened, mode⟩ := scan
  cases mode with
  | start => exact agrees_outside c
  | repeatable => exact agrees_behindAtom c
  | inSet set => exact agrees_inside set c

/-- At the end of a source, reader and scan agree on what is left open. -/
theorem error?_readOn_nil (scan : Scan) (groups : Nat) :
    error? (readOn scan groups []) = scan.atEnd := by
  obtain ⟨opened, mode⟩ := scan
  cases mode with
  | start | repeatable =>
      cases opened with
      | nil => simp [readOn, readQuantifier, readMarks, Except.bind, Scan.atEnd, error?]
      | cons => simp [readOn, readQuantifier, readMarks, Except.bind, Scan.atEnd, error?]
  | inSet set => simp [readOn, readSetItems, Except.bind, Scan.atEnd, error?]

/-- A scan meets the fault that the reader meets. -/
theorem Scan.run_eq_error? (scan : Scan) (groups offset : Nat) (text : Text) :
    scan.run offset text = error? (readOn scan groups (glyphs offset text)) := by
  -- The reader counts groups and a scan doesn't: no fault depends on the number.
  fun_induction Scan.run scan offset text generalizing groups with
  | case1 scan offset => exact (error?_readOn_nil scan groups).symm
  | case2 scan offset c rest fault stepped =>
      have agrees := agrees_step scan groups offset c rest
      rw [stepped] at agrees
      exact agrees.symm
  | case3 scan offset c rest scan' next stepped ih =>
      have agrees := agrees_step scan groups offset c rest
      rw [stepped] at agrees
      obtain ⟨groups', same⟩ := agrees
      rw [ih groups', same]

end Glyphs

/-! ### Sources -/

/-- The reader meets the fault that a scan of the source meets first. -/
theorem firstFault?_eq_error? (source : Text) :
    firstFault? source = error? (readMarks [] 0 (glyphs 0 source)) :=
  Scan.run_eq_error? ⟨[], .start⟩ 0 0 source

/-- A source is blamed for the first fault that a scan of it meets, at the fault's place,
and compiles if there is none. -/
theorem compile_eq_error_iff (source : String) :
    (∀ error, compile source = .error error ↔
      ∃ fault, firstFault? source.toList = some fault ∧
        error = .invalidExpression fault.content.message source fault.offset) ∧
    ∀ fault, firstFault? source.toList = some fault →
      Text.IsPlace source.toList fault.offset := by
  refine ⟨fun error => ?_, fun fault => isPlace_of_firstFault?⟩
  rw [compile, mapError_eq_error_iff]
  refine exists_congr fun fault => ?_
  rw [Pattern.read, map_eq_error_iff, firstFault?_eq_error?, error?_eq_some_iff]
  exact and_congr_right fun _ => eq_comm

/-- The set is never closed, but the range in it comes first; the inner of two parentheses
is closed; bounds are out of order in front of a parenthesis that closes nothing. -/
theorem compile_blames :
    (compile "é[b-a)" =
        .error (.invalidExpression "range b-a is out of order" "é[b-a)" 3) ∧
      Text.IsPlace "é[b-a)".toList 3) ∧
    compile "(a|(b)" = .error (.invalidExpression "unclosed group" "(a|(b)" 0) ∧
    compile "a\x7b3,1\x7d)" =
      .error (.invalidExpression "\x7b3,1\x7d: minimum exceeds maximum" "a\x7b3,1\x7d)" 1) := by
  have disorder : firstFault? "é[b-a)".toList = some ⟨.reversedRange 'b' 'a', 3⟩ := by
    decide +kernel
  have unclosed : firstFault? "(a|(b)".toList = some ⟨.unclosedGroup, 0⟩ := by decide +kernel
  have reversed : firstFault? "a\x7b3,1\x7d)".toList = some ⟨.reversedBounds 3 1, 1⟩ := by
    decide +kernel
  obtain ⟨blamed, placed⟩ := compile_eq_error_iff "é[b-a)"
  exact ⟨⟨(blamed _).mpr ⟨_, disorder, by decide⟩, placed _ disorder⟩,
    ((compile_eq_error_iff _).1 _).mpr ⟨_, unclosed, by decide⟩,
    ((compile_eq_error_iff _).1 _).mpr ⟨_, reversed, by decide⟩⟩

end TextGrammar.Pattern
