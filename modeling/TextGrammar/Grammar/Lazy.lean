import TextGrammar.Parse.Run

/-!
Grammars that are compiled when they are first needed.

A grammar that was compiled once is kept. An error is not kept: the next use
compiles again.
-/

namespace TextGrammar

/-- A definition, and its grammar once it has been compiled. -/
structure LazyGrammar where
  definition : Definition
  compiled : Option Grammar := none

namespace LazyGrammar

/-- The grammar of the definition, and the lazy grammar that keeps it. -/
def force (lazy : LazyGrammar) : Except Error Grammar × LazyGrammar :=
  match lazy.compiled with
  | some grammar => (.ok grammar, lazy)
  | none =>
      match lazy.definition.compile with
      | .ok grammar => (.ok grammar, { lazy with compiled := some grammar })
      | .error error => (.error error, lazy)

/-- Parses an input; an error of the definition is the verdict on every input. -/
def parse (lazy : LazyGrammar) (input : Text) : Verdict × LazyGrammar :=
  match lazy.force with
  | (.ok grammar, lazy) => (grammar.parse input, lazy)
  | (.error error, lazy) => (.error error, lazy)

end LazyGrammar

end TextGrammar
