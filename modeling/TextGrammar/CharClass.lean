import TextGrammar.Text

/-!
Classes of single characters.

Blank space, words and digits are ASCII notions here: no character beyond
U+007F is blank, a word character or a digit.
-/

namespace TextGrammar

/-- Space, tab, line feed, vertical tab, form feed and carriage return. -/
def isWhitespace (c : Char) : Bool :=
  c = ' ' || c = '\t' || c = '\n' || c = '\x0b' || c = '\x0c' || c = '\r'

/-- ASCII letters, digits and the underscore. -/
def isWord (c : Char) : Bool :=
  c.isAlphanum || c = '_'

/-- A test that one character passes or not. -/
inductive CharClass where
  /-- One specific character. -/
  | literal (c : Char)
  /-- Every character between two, both included. -/
  | range (low high : Char)
  /-- Every character that does not break a line. -/
  | dot
  | whitespace
  | notWhitespace
  | word
  | notWord
  | digit
  | notDigit
deriving DecidableEq, Repr

def CharClass.accepts : CharClass → Char → Bool
  | .literal expected, c => c = expected
  | .range low high, c => low ≤ c && c ≤ high
  | .dot, c => c ≠ '\n' && c ≠ '\r'
  | .whitespace, c => isWhitespace c
  | .notWhitespace, c => !isWhitespace c
  | .word, c => isWord c
  | .notWord, c => !isWord c
  | .digit, c => c.isDigit
  | .notDigit, c => !c.isDigit

/-- The first offset at or after the given one where the text does not go on
with whitespace. -/
def Text.skipWhitespace? (text : Text) (offset : Nat) : Option Nat :=
  (text.rest? offset).map fun rest => offset + Text.size (rest.takeWhile isWhitespace)

/-- Skipping whitespace never goes back. -/
theorem Text.le_of_skipWhitespace?_eq_some {text : Text} {offset start : Nat}
    (skipped : text.skipWhitespace? offset = some start) : offset ≤ start := by
  obtain ⟨rest, _, rfl⟩ := Option.map_eq_some_iff.mp skipped
  exact Nat.le_add_right _ _

end TextGrammar
