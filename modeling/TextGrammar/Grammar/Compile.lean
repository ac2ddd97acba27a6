import TextGrammar.Expression.Compile
import TextGrammar.Grammar.Definition

/-!
Compiled grammars.

Compiling looks at the patterns of all tokens first, then at the names, then at
the productions one after another, each with its references, and at the start
last. The first thing that is wrong in this order is the error.
-/

namespace TextGrammar

/-- A compiled grammar: rules by name, in the order of their definition. -/
structure Grammar where
  start : String
  tokens : List (String × Pattern)
  productions : List (String × Expression)
  options : Options

namespace Grammar

def token? (grammar : Grammar) (name : String) : Option Pattern :=
  grammar.tokens.lookup name

def production? (grammar : Grammar) (name : String) : Option Expression :=
  grammar.productions.lookup name

/-- The lexer that knows the tokens of the grammar only. -/
def lexer (grammar : Grammar) : Lexer String where
  rules := grammar.tokens
  skipWhitespace := grammar.options.skipWhitespace

/-- The tokens of an input, whatever the productions. -/
def tokenize (grammar : Grammar) (input : Text) : Except Error (List (Token String)) :=
  grammar.lexer.tokenize input

end Grammar

/-- The first element that equals an earlier one. -/
def firstRepeated? {α : Type} [DecidableEq α] (seen : List α) : List α → Option α
  | [] => none
  | x :: xs => if x ∈ seen then some x else firstRepeated? (x :: seen) xs

namespace Rule

def compileToken (rule : Rule) : Except Error (String × Pattern) := do
  return (rule.name, ← Pattern.compile rule.expression)

/-- A production rule with its expression, which may refer to these names. -/
def compileProduction (names : List String) (rule : Rule) :
    Except Error (String × Expression) := do
  let expression ← Expression.compile rule.expression
  match expression.references.find? fun name => name ∉ names with
  | some name => throw (.unknownIdentifier name rule.name)
  | none => return (rule.name, expression)

end Rule

namespace Definition

/-- The names of a definition are different from one another. -/
def checkNames (definition : Definition) : Except Error Unit :=
  match firstRepeated? [] definition.names with
  | some name => .error (.duplicateName name)
  | none => .ok ()

/-- The grammar that is written down, or the first error in it. -/
def compile (definition : Definition) : Except Error Grammar := do
  let tokens ← definition.tokens.mapM Rule.compileToken
  definition.checkNames
  let productions ← definition.productions.mapM (Rule.compileProduction definition.names)
  match productions.lookup definition.start with
  | none => throw (.unknownIdentifier definition.start "start")
  | some _ =>
      return { start := definition.start, tokens, productions, options := definition.options }

/-- What is logged while production rules are compiled, up to the first that
fails. -/
def logProductions (names : List String) : List Rule → List LogRecord
  | [] => []
  | rule :: rules =>
      Expression.log rule.expression ++
        match rule.compileProduction names with
        | .ok _ => logProductions names rules
        | .error _ => []

def log (definition : Definition) : List LogRecord :=
  let productions :=
    match definition.tokens.mapM Rule.compileToken, definition.checkNames with
    | .ok _, .ok _ => logProductions definition.names definition.productions
    | _, _ => []
  let summary :=
    match definition.compile with
    | .ok grammar =>
        let start := grammar.start
        let tokens := grammar.tokens.length
        let productions := grammar.productions.length
        let text :=
          s!"compiled {tokens} tokens and {productions} productions, starting at '{start}'"
        [⟨.debug, "grammar", text⟩]
    | .error _ => []
  productions ++ summary

end Definition

end TextGrammar
