import TextGrammar.Pattern.Compile
import TextGrammar.Proofs.Checked
import TextGrammar.Proofs.Text.Place

/-!
Scanning a pattern source for its first fault.

To tell what is wrong with a source nothing has to be nested. A scan goes through its
characters once, from left to right, and keeps in mind which parentheses are open, on a
stack, and whether it is in a set or behind something that can be repeated
(`Scan.step`). The first fault that it meets is the fault of the source
(`firstFault?`), and lies at a place of the source (`isPlace_of_firstFault?`).
-/

namespace TextGrammar.Pattern

/-- The text that is left, with its offset. -/
abbrev Remainder := Located Text

/-! ### The scan -/

/-- What a scan stands behind, as far as it matters for what follows. -/
inductive Mode where
  /-- Nothing that can be repeated. -/
  | start
  /-- An atom or a group, so that a quantifier may follow. -/
  | repeatable
  /-- The opening of a set at this offset, and perhaps items of the set. -/
  | inSet (opened : Nat)
deriving DecidableEq, Repr

/-- Where a scan has come to: the offsets of the parentheses that are open, the
innermost first, and what it stands behind. -/
structure Scan where
  opened : List Nat
  mode : Mode
deriving DecidableEq, Repr

/-- What a set or the end of a range has for its next member: a character, or what a
backslash and a character stand for. -/
def member? (offset : Nat) : Text → Option (CharClass × Remainder)
  | [] => none
  | ['\\'] => none
  | '\\' :: c :: rest =>
      some (if c = 'b' then .literal '\x08' else escapedClass c,
        ⟨rest, offset + ('\\'.utf8Size + c.utf8Size)⟩)
  | c :: rest => some (.literal c, ⟨rest, offset + c.utf8Size⟩)

/-- What is left of a range behind its first character, or behind that character alone if
the set ends after the hyphen. -/
def scanRange (start : Nat) (low : Char) (here : Remainder) : Except (Located Fault) Remainder :=
  match here.content with
  | '-' :: c :: rest =>
      if c = ']' then .ok here
      else
        let last := here.offset + '-'.utf8Size
        match member? last (c :: rest) with
        | none => .error ⟨.trailingBackslash, last⟩
        | some (.literal high, left) =>
            if high < low then .error ⟨.reversedRange low high, start⟩ else .ok left
        | some _ => .error ⟨.classEndsRange, last⟩
  | _ => .ok here

/-- What is left after an item of a set: a class, a character or a range. -/
def scanItem (offset : Nat) (text : Text) : Except (Located Fault) Remainder :=
  match member? offset text with
  | none => .error ⟨.trailingBackslash, offset⟩
  | some (.literal low, next) => scanRange offset low next
  | some (_, next) => .ok next

/-- The number that the text starts with, if its digits make one, and what is left. -/
def scanNumber? (here : Remainder) : Option (Nat × Remainder) :=
  let digits := here.content.takeWhile Char.isDigit
  (number? digits).map fun n =>
    (n, ⟨here.content.dropWhile Char.isDigit, here.offset + Text.size digits⟩)

/-- The bounds after an opening brace, if there are digits and commas as in `m}`, `m,}` or
`m,n}`, and what is left. -/
def scanBounds? (here : Remainder) : Option (Quantifier × Remainder) :=
  (scanNumber? here).bind fun (min, next) =>
    match next.content with
    | '}' :: rest => some (.exactly min, ⟨rest, next.offset + '}'.utf8Size⟩)
    | ',' :: '}' :: rest =>
        some (.atLeast min, ⟨rest, next.offset + ','.utf8Size + '}'.utf8Size⟩)
    | ',' :: rest =>
        (scanNumber? ⟨rest, next.offset + ','.utf8Size⟩).bind fun (max, last) =>
          match last.content with
          | '}' :: rest => some (⟨min, some max⟩, ⟨rest, last.offset + '}'.utf8Size⟩)
          | _ => none
    | _ => none

namespace Scan

/-- A character outside of sets that repeats nothing. -/
def outside (opened : List Nat) (offset : Nat) (c : Char) (rest : Text) :
    Except (Located Fault) (Scan × Remainder) :=
  let next : Remainder := ⟨rest, offset + c.utf8Size⟩
  match c with
  | '(' => .ok (⟨offset :: opened, .start⟩, next)
  | ')' =>
      match opened with
      | [] => .error ⟨.unmatchedClosing, offset⟩
      | _ :: opened => .ok (⟨opened, .repeatable⟩, next)
  | '|' => .ok (⟨opened, .start⟩, next)
  | '[' =>
      match rest with
      | '^' :: items => .ok (⟨opened, .inSet offset⟩, ⟨items, next.offset + '^'.utf8Size⟩)
      | _ => .ok (⟨opened, .inSet offset⟩, next)
  | '\\' =>
      match rest with
      | [] => .error ⟨.trailingBackslash, offset⟩
      | escaped :: rest =>
          .ok (⟨opened, .repeatable⟩, ⟨rest, offset + ('\\'.utf8Size + escaped.utf8Size)⟩)
  | _ => .ok (⟨opened, .repeatable⟩, next)

/-- A character behind an atom or a group. Braces that hold no bounds are characters. -/
def behindAtom (opened : List Nat) (offset : Nat) (c : Char) (rest : Text) :
    Except (Located Fault) (Scan × Remainder) :=
  let next : Remainder := ⟨rest, offset + c.utf8Size⟩
  match c with
  | '*' | '+' | '?' => .ok (⟨opened, .start⟩, next)
  | '\x7b' =>
      match scanBounds? next with
      | some (⟨min, some max⟩, left) =>
          if max < min then .error ⟨.reversedBounds min max, offset⟩
          else .ok (⟨opened, .start⟩, left)
      | some (⟨_, none⟩, left) => .ok (⟨opened, .start⟩, left)
      | none => outside opened offset c rest
  | _ => outside opened offset c rest

/-- A character in a set, with the rest of the item that it starts. -/
def inside (opened : List Nat) (set offset : Nat) (c : Char) (rest : Text) :
    Except (Located Fault) (Scan × Remainder) :=
  if c = ']' then .ok (⟨opened, .repeatable⟩, ⟨rest, offset + c.utf8Size⟩)
  else (scanItem offset (c :: rest)).map fun left => (⟨opened, .inSet set⟩, left)

/-- The scan goes on at a character, or meets a fault. -/
def step (scan : Scan) (offset : Nat) (c : Char) (rest : Text) :
    Except (Located Fault) (Scan × Remainder) :=
  match scan.mode with
  | .start => outside scan.opened offset c rest
  | .repeatable => behindAtom scan.opened offset c rest
  | .inSet set => inside scan.opened set offset c rest

/-- At the end of the source a set or a parenthesis may still be open. -/
def atEnd (scan : Scan) : Option (Located Fault) :=
  match scan.mode, scan.opened with
  | .inSet set, _ => some ⟨.unclosedSet, set⟩
  | _, offset :: _ => some ⟨.unclosedGroup, offset⟩
  | _, [] => none

end Scan

/-! ### Getting on -/

/-- Some characters stand between what is left here and what is left next. -/
def Ahead (here next : Remainder) : Prop :=
  ∃ between : Text, between ≠ [] ∧ here.content = between ++ next.content ∧
    next.offset = here.offset + between.size

section Ahead

variable {here next left : Remainder} {offset : Nat} {rest : Text}

theorem ahead_char (c : Char) (rest : Text) (offset : Nat) :
    Ahead ⟨c :: rest, offset⟩ ⟨rest, offset + c.utf8Size⟩ :=
  ⟨[c], by simp, rfl, by simp⟩

theorem ahead_pair (c d : Char) (rest : Text) (offset : Nat) :
    Ahead ⟨c :: d :: rest, offset⟩ ⟨rest, offset + (c.utf8Size + d.utf8Size)⟩ :=
  ⟨[c, d], by simp, rfl, by simp⟩

/-- What is ahead of something ahead is ahead. -/
theorem Ahead.trans (first : Ahead here next) (second : Ahead next left) : Ahead here left := by
  obtain ⟨between, some, split, counted⟩ := first
  obtain ⟨between', -, split', counted'⟩ := second
  refine ⟨between ++ between', by simp [some], ?_, ?_⟩
  · rw [split, split', List.append_assoc]
  · rw [counted', counted, Text.size_append, Nat.add_assoc]

/-- Less is left of the source further ahead. -/
theorem Ahead.length_lt (ahead : Ahead here next) : next.content.length < here.content.length := by
  obtain ⟨between, some, split, -⟩ := ahead
  rw [split, List.length_append]
  have := List.length_pos_iff.mpr some
  omega

/-- An item of a set takes one character, or two if it is escaped. -/
theorem ahead_of_member? {text : Text} {item : CharClass}
    (found : member? offset text = some (item, next)) : Ahead ⟨text, offset⟩ next := by
  unfold member? at found
  split at found
  · cases found
  · cases found
  · cases found
    exact ahead_pair _ _ _ _
  · cases found
    exact ahead_char _ _ _

/-- A range is given up where it stands, or takes its end. -/
theorem ahead_of_scanRange {start : Nat} {low : Char}
    (scanned : scanRange start low here = .ok next) : next = here ∨ Ahead here next := by
  obtain ⟨content, offset⟩ := here
  unfold scanRange at scanned
  simp only at scanned
  split at scanned
  · split at scanned
    · cases scanned
      exact .inl rfl
    · split at scanned
      · cases scanned
      · rename_i found
        split at scanned
        · cases scanned
        · cases scanned
          exact .inr ((ahead_char _ _ _).trans (ahead_of_member? found))
      · cases scanned
  · cases scanned
    exact .inl rfl

/-- An item of a set, a range or not, takes characters. -/
theorem ahead_of_scanItem {text : Text} (scanned : scanItem offset text = .ok next) :
    Ahead ⟨text, offset⟩ next := by
  unfold scanItem at scanned
  split at scanned
  · cases scanned
  · rename_i found
    rcases ahead_of_scanRange scanned with rfl | further
    · exact ahead_of_member? found
    · exact (ahead_of_member? found).trans further
  · rename_i found
    cases scanned
    exact ahead_of_member? found

/-- A number takes its digits, of which there is one at least. -/
theorem ahead_of_scanNumber? {n : Nat} (scanned : scanNumber? here = some (n, next)) :
    Ahead here next := by
  obtain ⟨value, number, same⟩ := Option.map_eq_some_iff.mp scanned
  obtain ⟨nonempty, -⟩ := number?_eq_some_iff.mp number
  cases same
  exact ⟨_, nonempty, List.takeWhile_append_dropWhile.symm, rfl⟩

/-- Bounds take what is between the braces, and the closing one. -/
theorem ahead_of_scanBounds? {q : Quantifier} (scanned : scanBounds? here = some (q, left)) :
    Ahead here left := by
  obtain ⟨⟨min, ⟨content, offset⟩⟩, low, goesOn⟩ := Option.bind_eq_some_iff.mp scanned
  have first := ahead_of_scanNumber? low
  simp only at goesOn
  split at goesOn
  · cases goesOn
    exact first.trans (ahead_char _ _ _)
  · cases goesOn
    exact first.trans ((ahead_char _ _ _).trans (ahead_char _ _ _))
  · obtain ⟨⟨max, ⟨content', offset'⟩⟩, high, ends⟩ := Option.bind_eq_some_iff.mp goesOn
    have second := (first.trans (ahead_char _ _ _)).trans (ahead_of_scanNumber? high)
    simp only at ends
    split at ends
    · cases ends
      exact second.trans (ahead_char _ _ _)
    · cases ends
  · cases goesOn

end Ahead

namespace Scan

/-- What a step does: it takes characters, and what it keeps in mind is where it has
started or was kept in mind before. -/
structure Continues (scan : Scan) (here : Remainder) (scan' : Scan) (next : Remainder) :
    Prop where
  ahead : Ahead here next
  opened : ∀ offset ∈ scan'.opened, offset = here.offset ∨ offset ∈ scan.opened
  set : ∀ set, scan'.mode = .inSet set → set = here.offset ∨ scan.mode = .inSet set

variable {scan scan' : Scan} {next : Remainder} {opened : List Nat} {mode : Mode} {set offset : Nat}
  {c : Char} {rest : Text}

/-- A step that neither opens nor closes anything keeps in mind what was kept before. -/
theorem continues_of_opened_eq {here : Remainder} (ahead : Ahead here next)
    (same : scan'.opened = scan.opened) (noSet : ∀ set, scan'.mode ≠ .inSet set) :
    scan.Continues here scan' next :=
  ⟨ahead, fun _ mem => .inr (same ▸ mem), fun set inSet => absurd inSet (noSet set)⟩

/-- A step before an atom goes on, and what it opens it opens where it stands. -/
theorem continues_of_outside (stepped : outside opened offset c rest = .ok (scan', next)) :
    Continues ⟨opened, mode⟩ ⟨c :: rest, offset⟩ scan' next := by
  unfold outside at stepped
  split at stepped
  · cases stepped
    exact ⟨ahead_char _ _ _, fun _ mem => List.mem_cons.mp mem, by simp⟩
  · split at stepped
    · cases stepped
    · cases stepped
      exact ⟨ahead_char _ _ _, fun _ mem => .inr (List.mem_cons_of_mem _ mem), by simp⟩
  · cases stepped
    exact continues_of_opened_eq (ahead_char _ _ _) rfl (by simp)
  · split at stepped
    · cases stepped
      refine ⟨(ahead_char _ _ _).trans (ahead_char _ _ _), fun _ mem => .inr mem, ?_⟩
      rintro _ ⟨⟩
      exact .inl rfl
    · cases stepped
      refine ⟨ahead_char _ _ _, fun _ mem => .inr mem, ?_⟩
      rintro _ ⟨⟩
      exact .inl rfl
  · split at stepped
    · cases stepped
    · cases stepped
      exact continues_of_opened_eq (ahead_pair _ _ _ _) rfl (by simp)
  · cases stepped
    exact continues_of_opened_eq (ahead_char _ _ _) rfl (by simp)

/-- A step behind an atom goes on, by a quantifier or as before an atom. -/
theorem continues_of_behindAtom (stepped : behindAtom opened offset c rest = .ok (scan', next)) :
    Continues ⟨opened, mode⟩ ⟨c :: rest, offset⟩ scan' next := by
  unfold behindAtom at stepped
  simp only at stepped
  split at stepped
  case h_1 | h_2 | h_3 =>
    cases stepped
    exact continues_of_opened_eq (ahead_char _ _ _) rfl (by simp)
  case h_4 =>
    split at stepped
    · rename_i bounds
      split at stepped
      · cases stepped
      · cases stepped
        exact continues_of_opened_eq ((ahead_char _ _ _).trans (ahead_of_scanBounds? bounds)) rfl
          (by simp)
    · rename_i bounds
      cases stepped
      exact continues_of_opened_eq ((ahead_char _ _ _).trans (ahead_of_scanBounds? bounds)) rfl
        (by simp)
    · exact continues_of_outside stepped
  case h_5 => exact continues_of_outside stepped

/-- A step in a set goes on, and stays in the set or closes it. -/
theorem continues_of_inside (stepped : inside opened set offset c rest = .ok (scan', next)) :
    Continues ⟨opened, .inSet set⟩ ⟨c :: rest, offset⟩ scan' next := by
  unfold inside at stepped
  split at stepped
  · cases stepped
    exact continues_of_opened_eq (ahead_char _ _ _) rfl (by simp)
  · obtain ⟨left, scanned, same⟩ := map_eq_ok_iff.mp stepped
    cases same
    exact ⟨ahead_of_scanItem scanned, fun _ mem => .inr mem, fun _ inSet => .inr inSet⟩

/-- Every step goes on. -/
theorem continues_of_step (stepped : scan.step offset c rest = .ok (scan', next)) :
    scan.Continues ⟨c :: rest, offset⟩ scan' next := by
  obtain ⟨opened, mode⟩ := scan
  cases mode with
  | start => exact continues_of_outside stepped
  | repeatable => exact continues_of_behindAtom stepped
  | inSet set => exact continues_of_inside stepped

end Scan

/-- The first fault that a scan meets in what is left. -/
def Scan.run (scan : Scan) (offset : Nat) : Text → Option (Located Fault)
  | [] => scan.atEnd
  | c :: rest =>
      match _stepped : scan.step offset c rest with
      | .error fault => some fault
      | .ok (scan, next) => scan.run next.offset next.content
termination_by text => text.length
decreasing_by exact (Scan.continues_of_step _stepped).ahead.length_lt

/-- The first fault of a source. -/
def firstFault? (source : Text) : Option (Located Fault) :=
  Scan.run ⟨[], .start⟩ 0 source

/-! ### Places -/

/-- This is left of the source at its offset. -/
def LiesIn (source : Text) (here : Remainder) : Prop :=
  ∃ front, source = front ++ here.content ∧ front.size = here.offset

/-- The scan has come to what is left, and what it keeps in mind are places. -/
structure Scan.Placed (source : Text) (scan : Scan) (here : Remainder) : Prop where
  here : LiesIn source here
  opened : ∀ offset ∈ scan.opened, source.IsPlace offset
  set : ∀ set, scan.mode = .inSet set → source.IsPlace set

section Placed

variable {source rest : Text} {here next : Remainder} {offset : Nat} {c : Char}
  {fault : Located Fault} {scan scan' : Scan}

/-- What is left of a source is left at a place of it. -/
theorem LiesIn.isPlace (lies : LiesIn source here) : source.IsPlace here.offset := by
  obtain ⟨front, whole, sized⟩ := lies
  exact ⟨front, here.content, whole, sized⟩

/-- What is ahead of something left of a source is left of it. -/
theorem LiesIn.ahead (lies : LiesIn source here) (ahead : Ahead here next) :
    LiesIn source next := by
  obtain ⟨front, whole, sized⟩ := lies
  obtain ⟨between, -, split, counted⟩ := ahead
  exact ⟨front ++ between, by rw [whole, split, List.append_assoc],
    by rw [Text.size_append, sized, counted]⟩

/-- A range is blamed where it starts, or where its end does. -/
theorem isPlace_of_scanRange {start : Nat} {low : Char} (place : source.IsPlace start)
    (lies : LiesIn source here) (faulty : scanRange start low here = .error fault) :
    source.IsPlace fault.offset := by
  obtain ⟨content, offset⟩ := here
  unfold scanRange at faulty
  simp only at faulty
  split at faulty
  · have last := (lies.ahead (ahead_char _ _ _)).isPlace
    split at faulty
    · cases faulty
    · split at faulty
      · cases faulty
        exact last
      · split at faulty <;> cases faulty
        exact place
      · cases faulty
        exact last
  · cases faulty

/-- An item of a set is blamed at a place of the source. -/
theorem isPlace_of_scanItem {text : Text} (lies : LiesIn source ⟨text, offset⟩)
    (faulty : scanItem offset text = .error fault) : source.IsPlace fault.offset := by
  unfold scanItem at faulty
  split at faulty
  · cases faulty
    exact lies.isPlace
  · rename_i found
    exact isPlace_of_scanRange lies.isPlace (lies.ahead (ahead_of_member? found)) faulty
  · cases faulty

/-- A step before an atom blames the character at which it stands. -/
theorem isPlace_of_outside {opened : List Nat} (place : source.IsPlace offset)
    (faulty : Scan.outside opened offset c rest = .error fault) :
    source.IsPlace fault.offset := by
  unfold Scan.outside at faulty
  split at faulty
  case h_1 | h_3 | h_6 => cases faulty
  case h_2 | h_5 =>
    split at faulty <;> cases faulty
    exact place
  case h_4 => split at faulty <;> cases faulty

/-- A step behind an atom blames the character at which it stands. -/
theorem isPlace_of_behindAtom {opened : List Nat} (place : source.IsPlace offset)
    (faulty : Scan.behindAtom opened offset c rest = .error fault) :
    source.IsPlace fault.offset := by
  unfold Scan.behindAtom at faulty
  simp only at faulty
  split at faulty
  case h_1 | h_2 | h_3 => cases faulty
  case h_4 =>
    split at faulty
    · split at faulty
      · cases faulty
        exact place
      · cases faulty
    · cases faulty
    · exact isPlace_of_outside place faulty
  case h_5 => exact isPlace_of_outside place faulty

/-- A fault that is met at a step lies at a place. -/
theorem isPlace_of_step (lies : LiesIn source ⟨c :: rest, offset⟩)
    (faulty : scan.step offset c rest = .error fault) : source.IsPlace fault.offset := by
  unfold Scan.step at faulty
  split at faulty
  · exact isPlace_of_outside lies.isPlace faulty
  · exact isPlace_of_behindAtom lies.isPlace faulty
  · unfold Scan.inside at faulty
    split at faulty
    · cases faulty
    · exact isPlace_of_scanItem lies (map_eq_error_iff.mp faulty)

/-- What a scan keeps in mind after a step are places again. -/
theorem Scan.Placed.step (placed : scan.Placed source here) (continues : scan.Continues here scan' next) :
    scan'.Placed source next where
  here := placed.here.ahead continues.ahead
  opened := by
    intro offset mem
    rcases continues.opened offset mem with rfl | before
    · exact placed.here.isPlace
    · exact placed.opened offset before
  set := by
    intro set inSet
    rcases continues.set set inSet with rfl | before
    · exact placed.here.isPlace
    · exact placed.set set before

/-- At the end of a source a bracket is blamed that was kept in mind. -/
theorem Scan.Placed.isPlace_of_atEnd (placed : scan.Placed source here)
    (faulty : scan.atEnd = some fault) : source.IsPlace fault.offset := by
  obtain ⟨opened, mode⟩ := scan
  cases mode with
  | inSet set =>
      cases faulty
      exact placed.set set rfl
  | start | repeatable =>
      cases opened with
      | nil => cases faulty
      | cons offset opened =>
          cases faulty
          exact placed.opened offset List.mem_cons_self

/-- A scan that has kept places in mind blames a place. -/
theorem Scan.Placed.isPlace_of_run {text : Text} (placed : scan.Placed source ⟨text, offset⟩)
    (faulty : scan.run offset text = some fault) : source.IsPlace fault.offset := by
  fun_induction Scan.run scan offset text with
  | case1 scan offset => exact placed.isPlace_of_atEnd faulty
  | case2 scan offset c rest fault' stepped =>
      cases faulty
      exact isPlace_of_step placed.here stepped
  | case3 scan offset c rest scan' next stepped ih =>
      exact ih (placed.step (Scan.continues_of_step stepped)) faulty

/-- A fault lies between two characters of the source, or at one of its ends. -/
theorem isPlace_of_firstFault? (faulty : firstFault? source = some fault) :
    source.IsPlace fault.offset := by
  have placed : Scan.Placed source ⟨[], .start⟩ ⟨source, 0⟩ :=
    ⟨⟨[], rfl, rfl⟩, by simp, by simp⟩
  exact placed.isPlace_of_run faulty

end Placed

end TextGrammar.Pattern
