import TextGrammar.Error

/-!
The ways in which an expression source can be malformed.

Where a fault is about a token, it carries the text of the token.
-/

namespace TextGrammar.Expression

inductive Fault where
  /-- A character that no token of an expression starts with. -/
  | strayCharacter (found : Char)
  /-- A closing sign outside of all groups. -/
  | unbalanced (found : String)
  /-- A repetition without anything in front of it. -/
  | nothingToRepeat (found : String)
  /-- An opening sign that lacks this closing one. -/
  | missing (closing : Char)
  /-- A sign that closes something else than the innermost group. -/
  | unexpectedClosing (found : String)
  | unexpectedInSet (found : String)
  | unexpectedInBounds (found : String)
  /-- Something else than a name where only names make sense. -/
  | notAnIdentifier (found : String)
  | malformedBounds
  | boundTooLarge
  | reversedBounds (min max : Nat)
deriving DecidableEq, Repr

def Fault.message : Fault → String
  | .strayCharacter found => "unexpected character '" ++ escapeChar found ++ "'"
  | .unbalanced found => s!"unbalanced '{found}'"
  | .nothingToRepeat found => s!"nothing to repeat before '{found}'"
  | .missing closing => "missing '" ++ closing.toString ++ "'"
  | .unexpectedClosing found => s!"expected ')', found '{found}'"
  | .unexpectedInSet found => s!"unexpected '{found}' in set"
  | .unexpectedInBounds found => s!"unexpected '{found}' in repetition bounds"
  | .notAnIdentifier found => s!"expected identifier, found '{found}'"
  | .malformedBounds => "malformed repetition bounds"
  | .boundTooLarge => "repetition bound is too large"
  | .reversedBounds min max => s!"minimum {min} is greater than maximum {max}"

def Fault.error (source : String) (fault : Located Fault) : Error :=
  .invalidExpression fault.content.message source fault.offset

end TextGrammar.Expression
