import TextGrammar.Pattern.Basic

/-!
Grammar definitions: rules and options as they are written down.
-/

namespace TextGrammar

/-- A name with the source of its pattern or expression. -/
structure Rule where
  name : String
  expression : String
deriving DecidableEq, Repr

/-- How a grammar is applied to an input. -/
structure Options where
  /-- Whitespace in front of tokens is passed over. -/
  skipWhitespace : Bool := true
  /-- The whole input has to be matched. -/
  complete : Bool := true
  /-- What a production matched at an offset is remembered. -/
  memoize : Bool := false
  /-- How many productions may be inside one another. -/
  recursionLimit : Nat := 256
deriving DecidableEq, Repr

/-- A grammar as it is written down. -/
structure Definition where
  /-- The production that an input has to be. -/
  start : String
  /-- Patterns of tokens, in the order in which a lexer tries them. -/
  tokens : List Rule := []
  /-- Expressions of productions. -/
  productions : List Rule := []
  options : Options := {}
deriving DecidableEq, Repr

namespace Definition

def token (definition : Definition) (name pattern : String) : Definition :=
  { definition with tokens := definition.tokens ++ [⟨name, pattern⟩] }

def production (definition : Definition) (name expression : String) : Definition :=
  { definition with productions := definition.productions ++ [⟨name, expression⟩] }

def withOptions (definition : Definition) (options : Options) : Definition :=
  { definition with options }

/-- The names of all rules, tokens first. -/
def names (definition : Definition) : List String :=
  (definition.tokens ++ definition.productions).map Rule.name

end Definition

end TextGrammar
