import TextGrammar.Expression.Compile
import TextGrammar.Proofs.Pattern.Visit

/-!
Derivations of expressions.

The grammar of expressions is

    alternatives := series ('|' series)*
    series       := (operand times?)*
    operand      := Identifier | '(' alternatives ')' | '[' '^'? Identifier* ']'
    times        := '*' | '+' | '?' | '{' Number (',' Number?)? '}'

A derivation is a tree with a constructor for every way to apply a rule; its
leaves are tokens of the kinds that the rule asks for. `Choice.tokens` are the
tokens that it derives, and `Choice.sequence` is what they stand for: both are
said by recursion on the derivation, without a reader.
-/

namespace TextGrammar.Expression

/-- A token of a known kind. -/
structure Leaf (symbol : Symbol) where
  value : String
  index : Nat

/-- A repetition, with its signs. -/
inductive Times where
  | star (sign : Leaf .star)
  | plus (sign : Leaf .plus)
  | question (sign : Leaf .question)
  | exactly (opening : Leaf .leftBrace) (bound : Leaf .number) (closing : Leaf .rightBrace)
  | atLeast (opening : Leaf .leftBrace) (min : Leaf .number) (comma : Leaf .comma)
      (closing : Leaf .rightBrace)
  | between (opening : Leaf .leftBrace) (min : Leaf .number) (comma : Leaf .comma)
      (max : Leaf .number) (closing : Leaf .rightBrace)

mutual

/-- What a repetition applies to. -/
inductive Operand where
  | name (name : Leaf .identifier)
  | group (opening : Leaf .leftParen) (body : Choice) (closing : Leaf .rightParen)
  | set (opening : Leaf .leftBracket) (caret : Option (Leaf .caret))
      (names : List (Leaf .identifier)) (closing : Leaf .rightBracket)

/-- Operands one after another, each with or without a repetition. -/
inductive Series where
  | nil
  | cons (operand : Operand) (times : Option Times) (rest : Series)

/-- One alternative, or several with bars between them. -/
inductive Choice where
  | only (series : Series)
  | either (series : Series) (bar : Leaf .pipe) (alternate : Choice)

end

/-! ### Tokens -/

namespace Leaf

variable {symbol other : Symbol}

def token (leaf : Leaf symbol) : Token Symbol :=
  ⟨symbol, leaf.value, leaf.index⟩

@[simp] theorem kind_token (leaf : Leaf symbol) : leaf.token.kind = symbol := rfl

@[simp] theorem token_inj {leaf leaf' : Leaf symbol} : leaf.token = leaf'.token ↔ leaf = leaf' := by
  cases leaf
  cases leaf'
  simp [token]

@[simp] theorem token_ne (leaf : Leaf symbol) (leaf' : Leaf other) (differ : symbol ≠ other) :
    leaf.token ≠ leaf'.token :=
  fun same => differ (congrArg Token.kind same)

end Leaf

def Times.tokens : Times → Tokens
  | .star sign => [sign.token]
  | .plus sign => [sign.token]
  | .question sign => [sign.token]
  | .exactly opening bound closing => [opening.token, bound.token, closing.token]
  | .atLeast opening min comma closing => [opening.token, min.token, comma.token, closing.token]
  | .between opening min comma max closing =>
      [opening.token, min.token, comma.token, max.token, closing.token]

/-- The tokens of a repetition that need not be there. -/
def Times.tokens? (times : Option Times) : Tokens :=
  times.elim [] Times.tokens

mutual

def Operand.tokens : Operand → Tokens
  | .name name => [name.token]
  | .group opening body closing => opening.token :: (body.tokens ++ [closing.token])
  | .set opening caret names closing =>
      opening.token :: (caret.toList.map Leaf.token ++ (names.map Leaf.token ++ [closing.token]))

def Series.tokens : Series → Tokens
  | .nil => []
  | .cons operand times rest => operand.tokens ++ (Times.tokens? times ++ rest.tokens)

def Choice.tokens : Choice → Tokens
  | .only series => series.tokens
  | .either series bar alternate => series.tokens ++ bar.token :: alternate.tokens

end

/-! ### Meaning -/

/-- The number that the digits of a bound denote. -/
def Leaf.number (bound : Leaf .number) : Nat :=
  digitsValue bound.value.toList

namespace Times

/-- How often a repetition asks for. -/
def quantifier : Times → Quantifier
  | .star _ => ⟨0, none⟩
  | .plus _ => ⟨1, none⟩
  | .question _ => ⟨0, some 1⟩
  | .exactly _ bound _ => ⟨bound.number, some bound.number⟩
  | .atLeast _ min _ _ => ⟨min.number, none⟩
  | .between _ min _ max _ => ⟨min.number, some max.number⟩

/-- The bounds of a repetition are numbers of 64 bits, and in order. -/
def InBounds : Times → Prop
  | .star _ => True
  | .plus _ => True
  | .question _ => True
  | .exactly _ bound _ => bound.number ≤ maxNumber
  | .atLeast _ min _ _ => min.number ≤ maxNumber
  | .between _ min _ max _ => min.number ≤ max.number ∧ max.number ≤ maxNumber

/-- The quantifier that a node gets from a repetition: none where there is no
repetition, and none where it asks for exactly once. -/
def stored : Option Times → Option Quantifier
  | none => none
  | some times => if times.quantifier = ⟨1, some 1⟩ then none else some times.quantifier

end Times

mutual

def Operand.InBounds : Operand → Prop
  | .name _ => True
  | .group _ body _ => body.InBounds
  | .set _ _ _ _ => True

def Series.InBounds : Series → Prop
  | .nil => True
  | .cons operand times rest =>
      operand.InBounds ∧ (∀ repetition, times = some repetition → repetition.InBounds) ∧
        rest.InBounds

/-- All repetitions of a derivation are within bounds. -/
def Choice.InBounds : Choice → Prop
  | .only series => series.InBounds
  | .either series _ alternate => series.InBounds ∧ alternate.InBounds

end

mutual

def Operand.groups : Operand → Nat
  | .name _ => 0
  | .group _ body _ => body.groups + 1
  | .set _ _ _ _ => 0

def Series.groups : Series → Nat
  | .nil => 0
  | .cons operand _ rest => operand.groups + rest.groups

/-- How many groups a derivation opens. -/
def Choice.groups : Choice → Nat
  | .only series => series.groups
  | .either series _ alternate => series.groups + alternate.groups

end

mutual

/-- What an operand matches, when that many groups are opened in front of it. -/
def Operand.kind (opened : Nat) : Operand → Kind
  | .name name => .reference name.value
  | .group _ body _ => .group (opened + 1) (body.sequence (opened + 1))
  | .set _ caret names _ =>
      .set (names.map fun name => ⟨.reference name.value, none⟩) caret.isSome

def Series.nodes (opened : Nat) : Series → List Node
  | .nil => []
  | .cons operand times rest =>
      ⟨operand.kind opened, Times.stored times⟩ :: rest.nodes (opened + operand.groups)

/-- The sequence that a derivation stands for: its groups are numbered in the
order in which they are opened, and its alternatives tried from left to right. -/
def Choice.sequence (opened : Nat) : Choice → Sequence
  | .only series => .only (series.nodes opened)
  | .either series _ alternate =>
      .either (series.nodes opened) (alternate.sequence (opened + series.groups))

end

/-- The expression that the derivation of a source stands for. -/
def Choice.expression (choice : Choice) (source : String) : Expression :=
  ⟨source, choice.sequence 0, choice.groups⟩

/-! ### Groups and names -/

mutual

theorem Operand.countP_tokens : ∀ operand : Operand,
    operand.tokens.countP (·.kind = .leftParen) = operand.groups
  | .name name => by simp [Operand.tokens, Operand.groups]
  | .group opening body closing => by
      simp [Operand.tokens, Operand.groups, body.countP_tokens]
  | .set opening caret names closing => by
      cases caret <;> simp [Operand.tokens, Operand.groups, List.countP_eq_zero]

theorem Series.countP_tokens : ∀ series : Series,
    series.tokens.countP (·.kind = .leftParen) = series.groups
  | .nil => rfl
  | .cons operand times rest => by
      have signs : (Times.tokens? times).countP (·.kind = .leftParen) = 0 := by
        cases times with
        | none => rfl
        | some times => cases times <;> simp [Times.tokens?, Times.tokens]
      simp only [Series.tokens, Series.groups, List.countP_append, operand.countP_tokens, signs,
        rest.countP_tokens, Nat.zero_add]

/-- A derivation opens a group for every opening parenthesis. -/
theorem Choice.countP_tokens : ∀ choice : Choice,
    choice.tokens.countP (·.kind = .leftParen) = choice.groups
  | .only series => by simp only [Choice.tokens, Choice.groups, series.countP_tokens]
  | .either series bar alternate => by
      simp [Choice.tokens, Choice.groups, series.countP_tokens, alternate.countP_tokens]

end

/-- What the items of a set show, they show in order. -/
theorem shownAll_references {γ : Type} (shows : Kind → Option γ)
    (names : List (Leaf .identifier)) :
    Node.shownAll shows (names.map fun name => ⟨.reference name.value, none⟩) =
      names.flatMap fun name => (shows (.reference name.value)).toList := by
  induction names with
  | nil => exact Node.shownAll_nil shows
  | cons name names ih =>
      rw [List.map_cons, Node.shownAll_cons, Node.kind, Kind.shown_reference, ih, List.flatMap_cons]

mutual

theorem Operand.groupNumbers (opened : Nat) : ∀ operand : Operand,
    (operand.kind opened).shown Kind.group? = List.range' (opened + 1) operand.groups
  | .name name => by
      rw [Operand.kind, Kind.shown_reference, Operand.groups]
      rfl
  | .group opening body closing => by
      have inside := body.groupNumbers (opened + 1)
      rw [Sequence.groupNumbers_eq] at inside
      rw [Operand.kind, Kind.shown_group, inside, Operand.groups, List.range'_succ]
      rfl
  | .set opening caret names closing => by
      rw [Operand.kind, Kind.shown_set, shownAll_references, Operand.groups]
      simp [Kind.group?]

theorem Series.groupNumbers (opened : Nat) : ∀ series : Series,
    Node.shownAll Kind.group? (series.nodes opened) = List.range' (opened + 1) series.groups
  | .nil => Node.shownAll_nil _
  | .cons operand times rest => by
      rw [Series.nodes, Node.shownAll_cons, Node.kind, operand.groupNumbers opened,
        rest.groupNumbers (opened + operand.groups), Series.groups, ← List.range'_append_1,
        Nat.add_right_comm]

/-- The groups of a derivation are numbered in the order in which they are met. -/
theorem Choice.groupNumbers (opened : Nat) : ∀ choice : Choice,
    (choice.sequence opened).groupNumbers = List.range' (opened + 1) choice.groups
  | .only series => by
      rw [Choice.sequence, Sequence.groupNumbers_eq, Sequence.shown_only,
        series.groupNumbers opened, Choice.groups]
  | .either series bar alternate => by
      have later := alternate.groupNumbers (opened + series.groups)
      rw [Sequence.groupNumbers_eq] at later
      rw [Choice.sequence, Sequence.groupNumbers_eq, Sequence.shown_either,
        series.groupNumbers opened, later, Choice.groups, ← List.range'_append_1,
        Nat.add_right_comm]

end

/-- The names among tokens, in order. -/
def identifiers (tokens : Tokens) : List String :=
  (tokens.filter fun token => token.kind = .identifier).map Token.value

@[simp] theorem identifiers_nil : identifiers [] = [] := rfl

@[simp] theorem identifiers_append (front back : Tokens) :
    identifiers (front ++ back) = identifiers front ++ identifiers back := by
  simp [identifiers]

@[simp] theorem identifiers_cons_token {symbol : Symbol} (leaf : Leaf symbol) (tokens : Tokens) :
    identifiers (leaf.token :: tokens) =
      if symbol = .identifier then leaf.value :: identifiers tokens else identifiers tokens := by
  unfold identifiers
  split <;> simp [*, Leaf.token]

theorem identifiers_names (names : List (Leaf .identifier)) :
    identifiers (names.map Leaf.token) = names.map Leaf.value := by
  induction names with
  | nil => rfl
  | cons name names ih => simp [ih]

/-- The signs of a repetition are no names. -/
theorem identifiers_times (times : Option Times) : identifiers (Times.tokens? times) = [] := by
  cases times with
  | none => rfl
  | some times => cases times <;> simp [Times.tokens?, Times.tokens, identifiers]

mutual

theorem Operand.references (opened : Nat) : ∀ operand : Operand,
    (operand.kind opened).shown Kind.reference? = identifiers operand.tokens
  | .name name => by
      rw [Operand.kind, Kind.shown_reference, Operand.tokens]
      simp [Kind.reference?]
  | .group opening body closing => by
      have inside := body.references (opened + 1)
      rw [Sequence.references_eq] at inside
      rw [Operand.kind, Kind.shown_group, inside, Operand.tokens]
      simp [Kind.reference?]
  | .set opening caret names closing => by
      have signs : identifiers (caret.toList.map Leaf.token) = [] := by
        cases caret <;> simp
      rw [Operand.kind, Kind.shown_set, shownAll_references, Operand.tokens]
      simp [Kind.reference?, signs, identifiers_names, ← List.map_eq_flatMap]

theorem Series.references (opened : Nat) : ∀ series : Series,
    Node.shownAll Kind.reference? (series.nodes opened) = identifiers series.tokens
  | .nil => Node.shownAll_nil _
  | .cons operand times rest => by
      rw [Series.nodes, Node.shownAll_cons, Node.kind, operand.references opened,
        rest.references (opened + operand.groups), Series.tokens, identifiers_append,
        identifiers_append, identifiers_times, List.nil_append]

/-- A derivation refers to the names among its tokens, in the same order. -/
theorem Choice.references (opened : Nat) : ∀ choice : Choice,
    (choice.sequence opened).references = identifiers choice.tokens
  | .only series => by
      rw [Choice.sequence, Sequence.references_eq, Sequence.shown_only,
        series.references opened, Choice.tokens]
  | .either series bar alternate => by
      have later := alternate.references (opened + series.groups)
      rw [Sequence.references_eq] at later
      rw [Choice.sequence, Sequence.references_eq, Sequence.shown_either,
        series.references opened, later, Choice.tokens]
      simp

end

end TextGrammar.Expression
