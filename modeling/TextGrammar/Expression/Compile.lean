import TextGrammar.Expression.Marks
import TextGrammar.Number

/-!
Compiled expressions.

An expression is the right-hand side of a production: a sequence whose nodes
refer to tokens and productions. Compiling reads the structure first; only then
are atoms taken for names and repetitions for quantifiers, from left to right,
the repetition of a node before its content.
-/

namespace TextGrammar

/-- A compiled expression; its groups are numbered from 1 in the order in which
they open. -/
structure Expression where
  source : String
  root : Sequence
  groups : Nat

namespace Expression

def name (token : Token Symbol) : Except (Located Fault) String :=
  if token.kind = .identifier then .ok token.value
  else .error ⟨.notAnIdentifier token.value, token.index⟩

/-- References to the names that tokens are, each once. -/
def items : Tokens → Except (Located Fault) (List Node)
  | [] => .ok []
  | token :: tokens => do
      let name ← name token
      let nodes ← items tokens
      return .one (.reference name) :: nodes

/-- What an atom matches. A caret at the start of a set negates it. -/
def Atom.kind : Atom → Except (Located Fault) Kind
  | .value token => return .reference (← name token)
  | .set (token :: tokens) =>
      if token.kind = .caret then return .set (← items tokens) true
      else return .set (← items (token :: tokens)) false
  | .set [] => return .set [] false

/-- The bound that digits denote; `offset` is what is blamed for a large one. -/
def bound (digits : String) (offset : Nat) : Except (Located Fault) Nat :=
  match number? digits.toList with
  | some n => .ok n
  | none => .error ⟨.boundTooLarge, offset⟩

/-- How often a repetition asks for. A bound that is too large is blamed on the
first of the two, whichever it is. -/
def Repetition.quantifier : Repetition → Except (Located Fault) Quantifier
  | .star => .ok .zeroOrMore
  | .plus => .ok .onceOrMore
  | .question => .ok .atMostOnce
  | .bounds _ [⟨.number, n, first⟩] => do
      return .exactly (← bound n first)
  | .bounds _ [⟨.number, n, first⟩, ⟨.comma, _, _⟩] => do
      return .atLeast (← bound n first)
  | .bounds offset [⟨.number, n, first⟩, ⟨.comma, _, _⟩, ⟨.number, m, _⟩] => do
      let min ← bound n first
      let max ← bound m first
      match Quantifier.between? min max with
      | some q => return q
      | none => throw ⟨.reversedBounds min max, offset⟩
  | .bounds offset _ => .error ⟨.malformedBounds, offset⟩

/-- The quantifier of a repetition, if there is any. -/
def quantifier? : Option Repetition → Except (Located Fault) (Option Quantifier)
  | none => return none
  | some repetition => return some (← repetition.quantifier)

def tokenize (source : String) : Except (Located Fault) Tokens :=
  match expressionLexer.tokens source.toList with
  | (tokens, none) => .ok tokens
  | (_, some stray) => .error ⟨.strayCharacter stray.content, stray.offset⟩

/-- The expression that a source denotes, or the first fault of the source. -/
def read (source : String) : Except (Located Fault) Expression := do
  let tokens ← tokenize source
  let marks ← readMarks [] 0 tokens
  let root ← Outline.settle Atom.kind quantifier? (.ofMarks marks)
  return { source, root, groups := Mark.groups marks }

def compile (source : String) : Except Error Expression :=
  (read source).mapError (Fault.error source)

/-- The names that the expression refers to, in source order. -/
def references (expression : Expression) : List String :=
  expression.root.references

def log (source : String) : List LogRecord :=
  expressionLexer.log source.toList ++
    match compile source with
    | .ok expression =>
        let groups := expression.groups
        [⟨.debug, "expressions", s!"compiled '{source}' with {groups} groups"⟩]
    | .error _ => []

end Expression

end TextGrammar
