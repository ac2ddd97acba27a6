import TextGrammar.LogRecord
import TextGrammar.Pattern.Match

/-!
Lexers.

A lexer is an ordered list of rules. At every offset, after whitespace if that
is skipped, the first rule with a non-empty match gives the next token; where
there is none, lexing stops with the character found there. `Lexer.tokens` is
total because every token ends later than it starts.
-/

namespace TextGrammar

/-- A piece of text that a rule matched. -/
structure Token (κ : Type) where
  kind : κ
  value : String
  index : Nat
deriving DecidableEq, Repr

/-- Patterns for the kinds of tokens, in the order in which they are tried. -/
structure Lexer (κ : Type) where
  rules : List (κ × Pattern)
  skipWhitespace : Bool := true

/-- A character that starts no token, and its offset. -/
abbrev Stray := Located Char

def Stray.error (stray : Stray) : Error :=
  .unexpectedCharacter stray.content stray.offset

def Stray.record (stray : Stray) : LogRecord :=
  ⟨.trace, "lexer", "no rule matches at " ++ toString stray.offset⟩

namespace Lexer

variable {κ : Type}

/-- The first rule with a non-empty match at an offset, and where that ends. -/
def firstMatch? (rules : List (κ × Pattern)) (text : Text) (offset : Nat) : Option (κ × Nat) :=
  rules.findSome? fun (kind, pattern) =>
    match pattern.matchAt? text offset with
    | some m => if offset < m.stop then some (kind, m.stop) else none
    | none => none

theorem lt_of_firstMatch?_eq_some {rules : List (κ × Pattern)} {text : Text} {offset stop : Nat}
    {kind : κ} (found : firstMatch? rules text offset = some (kind, stop)) : offset < stop := by
  obtain ⟨rule, _, matched⟩ := List.exists_of_findSome?_eq_some found
  grind

/-- What a lexer finds at an offset. -/
inductive Step (κ : Type) where
  /-- The end of the text. -/
  | done
  | stray (found : Stray)
  /-- A token and the offset right after it. -/
  | token (found : Token κ) (stop : Nat)

/-- Where the next token would start. -/
def start? (lexer : Lexer κ) (text : Text) (offset : Nat) : Option Nat :=
  if lexer.skipWhitespace then text.skipWhitespace? offset else some offset

/-- What comes next after an offset. -/
def next (lexer : Lexer κ) (text : Text) (offset : Nat) : Step κ :=
  match lexer.start? text offset with
  | none => .done
  | some start =>
      match text.rest? start with
      | none => .done
      | some [] => .done
      | some (found :: _) =>
          match firstMatch? lexer.rules text start with
          | none => .stray ⟨found, start⟩
          | some (kind, stop) =>
              let value := (text.slice? start stop).getD []
              .token ⟨kind, String.ofList value, start⟩ stop

/-- A token lies after the offset it was looked for at, which is not the end. -/
theorem lt_of_next_eq_token {lexer : Lexer κ} {text : Text} {offset stop : Nat} {found : Token κ}
    (step : lexer.next text offset = .token found stop) : offset < stop ∧ offset < text.size := by
  unfold next at step
  split at step
  · cases step
  · rename_i start starts
    have later : offset ≤ start := by
      unfold start? at starts
      split at starts
      · exact Text.le_of_skipWhitespace?_eq_some starts
      · cases starts
        exact Nat.le_refl _
    split at step
    · cases step
    · cases step
    · rename_i c cs rest
      have sized := Text.size_of_rest?_eq_some rest
      have := c.utf8Size_pos
      rw [Text.size_cons] at sized
      split at step
      · cases step
      · rename_i kind stop' matched
        cases step
        have := lt_of_firstMatch?_eq_some matched
        omega

/-- The tokens of a text from an offset on, and the stray character that ended
them early. -/
def tokensFrom (lexer : Lexer κ) (text : Text) (offset : Nat) : List (Token κ) × Option Stray :=
  match _step : lexer.next text offset with
  | .done => ([], none)
  | .stray found => ([], some found)
  | .token found stop =>
      let (tokens, stray) := lexer.tokensFrom text stop
      (found :: tokens, stray)
termination_by text.size - offset
decreasing_by
  have := lt_of_next_eq_token _step
  omega

/-- The tokens of a text, as far as there are any. -/
def tokens (lexer : Lexer κ) (text : Text) : List (Token κ) × Option Stray :=
  lexer.tokensFrom text 0

/-- The tokens of a text that holds nothing else. -/
def tokenize (lexer : Lexer κ) (text : Text) : Except Error (List (Token κ)) :=
  match lexer.tokens text with
  | (tokens, none) => .ok tokens
  | (_, some stray) => .error stray.error

def log (lexer : Lexer κ) (text : Text) : List LogRecord :=
  (lexer.tokens text).2.toList.map Stray.record

end Lexer

end TextGrammar
