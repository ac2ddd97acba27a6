import TextGrammar.Number
import TextGrammar.Outline
import TextGrammar.Pattern.Fault
import TextGrammar.Pattern.Glyph

/-!
Reading a pattern source from left to right.

`readMarks` reads glyphs into the marks of an outline and stops at the first fault.
It carries the offsets of the groups that are open, the innermost first, so a
closing without its opening is met where it stands, and an opening without its
closing at the end of the source.
-/

namespace TextGrammar.Pattern

/-- What is left to read of a pattern. -/
abbrev Glyphs := List (Located Glyph)

/-- The item of a set that starts with a glyph, and what follows it. A literal,
a hyphen and one more glyph make a range, unless the set ends there. -/
def readSetItem (first : Located Glyph) (rest : Glyphs) :
    Except (Located Fault) (CharClass × Glyphs) :=
  match first.content.item? with
  | none => .error ⟨.trailingBackslash, first.offset⟩
  | some (.literal low) =>
      match rest with
      | ⟨.plain '-', _⟩ :: last :: left =>
          if last.content = .plain ']' then .ok (.literal low, rest)
          else
            match last.content.item? with
            | none => .error ⟨.trailingBackslash, last.offset⟩
            | some (.literal high) =>
                if high < low then .error ⟨.reversedRange low high, first.offset⟩
                else .ok (.range low high, left)
            | some _ => .error ⟨.classEndsRange, last.offset⟩
      | _ => .ok (.literal low, rest)
  | some item => .ok (item, rest)

theorem length_of_readSetItem {first : Located Glyph} {rest left : Glyphs} {item : CharClass}
    (read : readSetItem first rest = .ok (item, left)) : left.length ≤ rest.length := by
  unfold readSetItem at read
  grind

def readSetItems (opened : Nat) : Glyphs → Except (Located Fault) (List CharClass × Glyphs)
  | [] => .error ⟨.unclosedSet, opened⟩
  | first :: rest =>
      if first.content = .plain ']' then .ok ([], rest)
      else
        match _read : readSetItem first rest with
        | .error fault => .error fault
        | .ok (item, rest) =>
            match readSetItems opened rest with
            | .error fault => .error fault
            | .ok (items, rest) => .ok (item :: items, rest)
termination_by glyphs => glyphs.length
decreasing_by
  have := length_of_readSetItem _read
  simp only [List.length_cons]
  omega

theorem length_of_readSetItems {opened : Nat} {rest left : Glyphs} {items : List CharClass}
    (read : readSetItems opened rest = .ok (items, left)) : left.length < rest.length := by
  fun_induction readSetItems opened rest generalizing items left with
  | case1 => cases read
  | case2 first rest closes =>
      cases read
      simp
  | case3 => cases read
  | case4 => cases read
  | case5 first rest _ item middle one items' left' more ih =>
      cases read
      have := length_of_readSetItem one
      have := ih more
      simp only [List.length_cons]
      omega

/-- A set after its opening bracket: a caret at its start negates it. -/
def readSet (opened : Nat) (rest : Glyphs) : Except (Located Fault) (Kind × Glyphs) :=
  let negated := rest.head?.any fun first => first.content = .plain '^'
  match readSetItems opened (if negated then rest.tail else rest) with
  | .error fault => .error fault
  | .ok (items, left) => .ok (.set (items.map fun item => .one (.single item)) negated, left)

theorem length_of_readSet {opened : Nat} {rest left : Glyphs} {kind : Kind}
    (read : readSet opened rest = .ok (kind, left)) : left.length ≤ rest.length := by
  simp only [readSet] at read
  split at read
  · cases read
  · rename_i items _ more
    cases read
    have := length_of_readSetItems more
    split at this
    · rw [List.length_tail] at this
      omega
    · omega

def readDigits : Glyphs → List Char × Glyphs
  | [] => ([], [])
  | glyph :: rest =>
      match glyph.content.digit? with
      | some c => (c :: (readDigits rest).1, (readDigits rest).2)
      | none => ([], glyph :: rest)

theorem length_readDigits (rest : Glyphs) : (readDigits rest).2.length ≤ rest.length := by
  fun_induction readDigits rest <;> grind

/-- Repetition bounds after their opening brace, with the closing one: a minimum,
and after a comma perhaps a maximum. -/
def readBounds? (rest : Glyphs) : Option (Quantifier × Glyphs) :=
  match number? (readDigits rest).1, (readDigits rest).2 with
  | some min, ⟨.plain '}', _⟩ :: left => some (.exactly min, left)
  | some min, ⟨.plain ',', _⟩ :: ⟨.plain '}', _⟩ :: left => some (.atLeast min, left)
  | some min, ⟨.plain ',', _⟩ :: rest =>
      match number? (readDigits rest).1, (readDigits rest).2 with
      | some max, ⟨.plain '}', _⟩ :: left => some (⟨min, some max⟩, left)
      | _, _ => none
  | _, _ => none

theorem length_of_readBounds? {rest left : Glyphs} {q : Quantifier}
    (read : readBounds? rest = some (q, left)) : left.length ≤ rest.length := by
  unfold readBounds? at read
  grind [length_readDigits]

/-- The quantifier after an atom or a group, if one stands there. A brace that
starts no bounds is left to be read as a character. -/
def readQuantifier (rest : Glyphs) : Except (Located Fault) (Option Quantifier × Glyphs) :=
  match rest with
  | ⟨.plain '*', _⟩ :: left => .ok (some .zeroOrMore, left)
  | ⟨.plain '+', _⟩ :: left => .ok (some .onceOrMore, left)
  | ⟨.plain '?', _⟩ :: left => .ok (some .atMostOnce, left)
  | ⟨.plain '{', offset⟩ :: body =>
      match readBounds? body with
      | some (⟨min, some max⟩, left) =>
          if max < min then .error ⟨.reversedBounds min max, offset⟩
          else .ok (some ⟨min, some max⟩, left)
      | some (⟨min, none⟩, left) => .ok (some ⟨min, none⟩, left)
      | none => .ok (none, rest)
  | _ => .ok (none, rest)

theorem length_of_readQuantifier {rest left : Glyphs} {q : Option Quantifier}
    (read : readQuantifier rest = .ok (q, left)) : left.length ≤ rest.length := by
  unfold readQuantifier at read
  grind [→ length_of_readBounds?]

/-- The kind that starts with a glyph which is no part of the structure around
it, and what follows. -/
def readAtom (first : Located Glyph) (rest : Glyphs) : Except (Located Fault) (Kind × Glyphs) :=
  if first.content = .plain '[' then readSet first.offset rest
  else
    match first.content.kind? with
    | some kind => .ok (kind, rest)
    | none => .error ⟨.trailingBackslash, first.offset⟩

theorem length_of_readAtom {first : Located Glyph} {rest left : Glyphs} {kind : Kind}
    (read : readAtom first rest = .ok (kind, left)) : left.length ≤ rest.length := by
  unfold readAtom at read
  grind [→ length_of_readSet]

/-- The marks of the glyphs that are left, when the groups at these offsets are
open and that many groups have been opened so far. -/
def readMarks (opened : List Nat) (groups : Nat) :
    Glyphs → Except (Located Fault) (List (Mark Kind (Option Quantifier)))
  | [] =>
      match opened with
      | [] => .ok []
      | offset :: _ => .error ⟨.unclosedGroup, offset⟩
  | ⟨.plain '(', offset⟩ :: rest =>
      (readMarks (offset :: opened) (groups + 1) rest).map (.opening (groups + 1) :: ·)
  | ⟨.plain ')', offset⟩ :: rest =>
      match opened with
      | [] => .error ⟨.unmatchedClosing, offset⟩
      | _ :: opened =>
          match _repeated : readQuantifier rest with
          | .error fault => .error fault
          | .ok (q, rest) => (readMarks opened groups rest).map (.closing q :: ·)
  | ⟨.plain '|', _⟩ :: rest => (readMarks opened groups rest).map (.bar :: ·)
  | first :: rest =>
      match _read : readAtom first rest with
      | .error fault => .error fault
      | .ok (kind, rest) =>
          match _repeated : readQuantifier rest with
          | .error fault => .error fault
          | .ok (q, rest) => (readMarks opened groups rest).map (.atom kind q :: ·)
termination_by glyphs => glyphs.length
decreasing_by
  all_goals
    try have := length_of_readAtom _read
    try have := length_of_readQuantifier _repeated
    simp only [List.length_cons]
    omega

end TextGrammar.Pattern
