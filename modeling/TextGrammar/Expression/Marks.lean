import TextGrammar.Expression.Fault
import TextGrammar.Expression.Symbol
import TextGrammar.Outline

/-!
Reading the tokens of an expression from left to right.

`readMarks` checks that groups, sets and bounds are closed and that every
repetition has something to repeat. What stands inside of sets and bounds, and
whether an atom is a name, is left for later: those faults count only in an
expression whose structure is sound.
-/

namespace TextGrammar.Expression

/-- What is left to read of an expression. -/
abbrev Tokens := List (Token Symbol)

/-- What an atom was written as: a single token, or a set of them. -/
inductive Atom where
  | value (token : Token Symbol)
  | set (tokens : Tokens)
deriving DecidableEq, Repr

/-- What a repetition was written as. -/
inductive Repetition where
  | star
  | plus
  | question
  /-- The tokens between braces, and the offset of the opening one. -/
  | bounds (offset : Nat) (tokens : Tokens)
deriving DecidableEq, Repr

/-- The tokens up to a closing sign, and what follows it. Nothing but tokens
that are content may stand before the sign. -/
def readContents (closing : Symbol) (sign : Char) (unexpected : String → Fault) (opened : Nat) :
    Tokens → Except (Located Fault) (Tokens × Tokens)
  | [] => .error ⟨.missing sign, opened⟩
  | token :: rest =>
      if token.kind = closing then .ok ([], rest)
      else if token.kind.isContent then
        (readContents closing sign unexpected opened rest).map fun (tokens, left) =>
          (token :: tokens, left)
      else .error ⟨unexpected token.value, token.index⟩

theorem length_of_readContents {closing : Symbol} {sign : Char} {unexpected : String → Fault}
    {opened : Nat} {rest tokens left : Tokens}
    (read : readContents closing sign unexpected opened rest = .ok (tokens, left)) :
    left.length < rest.length := by
  fun_induction readContents closing sign unexpected opened rest generalizing tokens with
  | case1 => cases read
  | case2 token rest closes =>
      cases read
      simp
  | case3 token rest _ _ ih =>
      cases more : readContents closing sign unexpected opened rest with
      | error fault => simp [more, Except.map] at read
      | ok parts =>
          simp only [more, Except.map, Except.ok.injEq, Prod.mk.injEq] at read
          have := @ih parts.1 (by simp [more, ← read.2])
          simp only [List.length_cons]
          omega
  | case4 => cases read

/-- The repetition after an atom or a group, if one stands there. -/
def readRepetition (rest : Tokens) : Except (Located Fault) (Option Repetition × Tokens) :=
  match rest with
  | [] => .ok (none, [])
  | token :: left =>
      match token.kind with
      | .star => .ok (some .star, left)
      | .plus => .ok (some .plus, left)
      | .question => .ok (some .question, left)
      | .leftBrace =>
          match readContents .rightBrace '}' .unexpectedInBounds token.index left with
          | .error fault => .error fault
          | .ok (tokens, left) => .ok (some (.bounds token.index tokens), left)
      | _ => .ok (none, rest)

theorem length_of_readRepetition {rest left : Tokens} {repetition : Option Repetition}
    (read : readRepetition rest = .ok (repetition, left)) : left.length ≤ rest.length := by
  unfold readRepetition at read
  grind [→ length_of_readContents]

/-- The atom that starts with a token which is no part of the structure around
it, and what follows. -/
def readAtom (token : Token Symbol) (rest : Tokens) : Except (Located Fault) (Atom × Tokens) :=
  match token.kind with
  | .leftBracket =>
      match readContents .rightBracket ']' .unexpectedInSet token.index rest with
      | .error fault => .error fault
      | .ok (tokens, left) => .ok (.set tokens, left)
  | kind =>
      if kind.isContent then .ok (.value token, rest)
      else .error ⟨.nothingToRepeat token.value, token.index⟩

theorem length_of_readAtom {token : Token Symbol} {rest left : Tokens} {atom : Atom}
    (read : readAtom token rest = .ok (atom, left)) : left.length ≤ rest.length := by
  unfold readAtom at read
  grind [→ length_of_readContents]

/-- The marks of the tokens that are left, when the groups at these offsets are
open and that many groups have been opened so far. -/
def readMarks (opened : List Nat) (groups : Nat) :
    Tokens → Except (Located Fault) (List (Mark Atom (Option Repetition)))
  | [] =>
      match opened with
      | [] => .ok []
      | offset :: _ => .error ⟨.missing ')', offset⟩
  | token :: rest =>
      match token.kind with
      | .leftParen =>
          (readMarks (token.index :: opened) (groups + 1) rest).map (.opening (groups + 1) :: ·)
      | .pipe => (readMarks opened groups rest).map (.bar :: ·)
      | .rightParen =>
          match opened with
          | [] => .error ⟨.unbalanced token.value, token.index⟩
          | _ :: opened =>
              match _repeated : readRepetition rest with
              | .error fault => .error fault
              | .ok (repetition, rest) =>
                  (readMarks opened groups rest).map (.closing repetition :: ·)
      | .rightBracket | .rightBrace =>
          match opened with
          | [] => .error ⟨.unbalanced token.value, token.index⟩
          | _ => .error ⟨.unexpectedClosing token.value, token.index⟩
      | _ =>
          match _read : readAtom token rest with
          | .error fault => .error fault
          | .ok (atom, rest) =>
              match _repeated : readRepetition rest with
              | .error fault => .error fault
              | .ok (repetition, rest) =>
                  (readMarks opened groups rest).map (.atom atom repetition :: ·)
termination_by tokens => tokens.length
decreasing_by
  all_goals
    try have := length_of_readAtom _read
    try have := length_of_readRepetition _repeated
    simp only [List.length_cons]
    omega

end TextGrammar.Expression
