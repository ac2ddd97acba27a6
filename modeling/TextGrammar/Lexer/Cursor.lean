import TextGrammar.Lexer

/-!
Reading the tokens of a text one at a time.

A cursor says how far the tokens of a text have been read. To read on takes it over
what the lexer skips and over the next token. A stray character is reported once, in
place of a token; from then on, and at the end of the text, there is nothing to read.
-/

namespace TextGrammar

/-- How far the tokens of a text have been read. -/
structure Cursor where
  offset : Nat := 0
  /-- Whether a stray character has been reported. -/
  failed : Bool := false
deriving DecidableEq, Repr

namespace Lexer

variable {κ : Type}

/-- What is read next, if anything is, and the cursor after it. -/
def advance (lexer : Lexer κ) (text : Text) (cursor : Cursor) :
    Option (Except Error (Token κ)) × Cursor :=
  if cursor.failed then (none, cursor)
  else
    match lexer.next text cursor.offset with
    | .done =>
        let start := (lexer.start? text cursor.offset).getD cursor.offset
        (none, { cursor with offset := start })
    | .stray found => (some (.error found.error), { offset := found.offset, failed := true })
    | .token found stop => (some (.ok found), { cursor with offset := stop })

/-- What is read from a cursor on after that many other readings. -/
def read? (lexer : Lexer κ) (text : Text) : Nat → Cursor → Option (Except Error (Token κ))
  | 0, cursor => (lexer.advance text cursor).1
  | n + 1, cursor => lexer.read? text n (lexer.advance text cursor).2

end Lexer

end TextGrammar
