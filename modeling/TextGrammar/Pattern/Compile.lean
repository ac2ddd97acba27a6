import TextGrammar.Pattern.Marks

/-!
Compiled patterns.

A pattern keeps its source next to the sequence that the source denotes and the
number of groups in it. `Pattern.compile` reads the source into marks, nests
them and keeps what the atoms and repetitions already say.
-/

namespace TextGrammar

/-- A compiled pattern; its groups are numbered from 1 in the order in which
they open. -/
structure Pattern where
  source : String
  root : Sequence
  groups : Nat

namespace Pattern

/-- The sequence that the marks of a pattern denote. -/
def sequenceOfMarks (marks : List (Mark Kind (Option Quantifier))) : Sequence :=
  Outline.settle (m := Id) pure pure (.ofMarks marks)

/-- The pattern that a source denotes, or the first fault of the source. -/
def read (source : String) : Except (Located Fault) Pattern :=
  (readMarks [] 0 (glyphs 0 source.toList)).map fun marks =>
    { source, root := sequenceOfMarks marks, groups := Mark.groups marks }

def compile (source : String) : Except Error Pattern :=
  (read source).mapError (Fault.error source)

/-- The source between slashes. -/
def display (pattern : Pattern) : String :=
  "/" ++ pattern.source ++ "/"

end Pattern

end TextGrammar
