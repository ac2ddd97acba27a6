import TextGrammar.Lexer

/-!
The tokens of grammar expressions.

Expressions are split into tokens by a lexer like any other: every symbol has a
pattern, and the patterns are tried in the order of `Symbol.all`.
-/

namespace TextGrammar

/-- The kinds of tokens that an expression is written with. -/
inductive Symbol where
  | identifier
  | number
  | pipe
  | plus
  | question
  | star
  | leftParen
  | rightParen
  | leftBrace
  | rightBrace
  | leftBracket
  | rightBracket
  | comma
  | caret
deriving DecidableEq, Repr

namespace Symbol

/-- Every symbol, in the order in which a lexer tries them. -/
def all : List Symbol :=
  [identifier, number, pipe, plus, question, star, leftParen, rightParen, leftBrace,
    rightBrace, leftBracket, rightBracket, comma, caret]

def name : Symbol → String
  | identifier => "Identifier"
  | number => "Number"
  | pipe => "Pipe"
  | plus => "Plus"
  | question => "Question"
  | star => "Star"
  | leftParen => "LeftParen"
  | rightParen => "RightParen"
  | leftBrace => "LeftBrace"
  | rightBrace => "RightBrace"
  | leftBracket => "LeftBracket"
  | rightBracket => "RightBracket"
  | comma => "Comma"
  | caret => "Caret"

def pattern : Symbol → String
  | identifier => "[a-zA-Z_][a-zA-Z0-9_]*"
  | number => "[0-9]+"
  | pipe => "\\|"
  | plus => "\\+"
  | question => "\\?"
  | star => "\\*"
  | leftParen => "\\("
  | rightParen => "\\)"
  | leftBrace => "\\\x7b"
  | rightBrace => "\\\x7d"
  | leftBracket => "\\["
  | rightBracket => "\\]"
  | comma => ","
  | caret => "\\^"

/-- Whether the symbol may stand inside brackets and braces. -/
def isContent : Symbol → Bool
  | identifier | number | comma | caret => true
  | _ => false

end Symbol

/-- The lexer of expressions; the pattern of every symbol compiles. -/
def expressionLexer : Lexer Symbol where
  rules := Symbol.all.filterMap fun symbol =>
    (Pattern.compile symbol.pattern).toOption.map fun pattern => (symbol, pattern)

end TextGrammar
