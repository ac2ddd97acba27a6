import TextGrammar.Pattern.Basic

/-!
Glyphs: the characters of a pattern source as they are meant.

A backslash takes its meaning together with the character after it, wherever it
stands. Once the two are read as one glyph, no later stage looks at a backslash
again.
-/

namespace TextGrammar.Pattern

/-- A character that stands for itself or has a meaning of its own, a character
after a backslash, or a backslash at the end of the source. -/
inductive Glyph where
  | plain (c : Char)
  | escaped (c : Char)
  | dangling
deriving DecidableEq, Repr

/-- The glyphs of a source that starts at an offset, each with its own offset. -/
def glyphs (offset : Nat) : Text → List (Located Glyph)
  | [] => []
  | ['\\'] => [⟨.dangling, offset⟩]
  | '\\' :: c :: cs =>
      ⟨.escaped c, offset⟩ :: glyphs (offset + ('\\'.utf8Size + c.utf8Size)) cs
  | c :: cs => ⟨.plain c, offset⟩ :: glyphs (offset + c.utf8Size) cs

/-- The characters that an escape stands for, as far as it is the same inside
and outside of sets. -/
def escapedClass : Char → CharClass
  | 't' => .literal '\t'
  | 'n' => .literal '\n'
  | 'v' => .literal '\x0b'
  | 'f' => .literal '\x0c'
  | 'r' => .literal '\r'
  | '0' => .literal '\x00'
  | 's' => .whitespace
  | 'S' => .notWhitespace
  | 'w' => .word
  | 'W' => .notWord
  | 'd' => .digit
  | 'D' => .notDigit
  | c => .literal c

namespace Glyph

/-- What a glyph outside of sets matches, when it has no part in the structure
of the pattern. -/
def kind? : Glyph → Option Kind
  | .plain '.' => some (.single .dot)
  | .plain c => some (.literal c)
  | .escaped 'b' => some .wordBoundary
  | .escaped c => some (.single (escapedClass c))
  | .dangling => none

/-- What a glyph inside a set matches: the dot is a dot, and the escape of a
word boundary is a backspace. -/
def item? : Glyph → Option CharClass
  | .plain c => some (.literal c)
  | .escaped 'b' => some (.literal '\x08')
  | .escaped c => some (escapedClass c)
  | .dangling => none

def digit? : Glyph → Option Char
  | .plain c => if c.isDigit then some c else none
  | _ => none

end Glyph

end TextGrammar.Pattern
