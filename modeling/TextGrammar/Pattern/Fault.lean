import TextGrammar.Error

/-!
The ways in which a pattern source can be malformed.
-/

namespace TextGrammar.Pattern

inductive Fault where
  | unclosedGroup
  | unmatchedClosing
  | trailingBackslash
  | unclosedSet
  /-- A range whose first character comes after its last. -/
  | reversedRange (low high : Char)
  /-- A range that ends in a class of several characters. -/
  | classEndsRange
  /-- Repetition bounds whose minimum exceeds their maximum. -/
  | reversedBounds (min max : Nat)
deriving DecidableEq, Repr

def Fault.message : Fault → String
  | .unclosedGroup => "unclosed group"
  | .unmatchedClosing => "unmatched ')'"
  | .trailingBackslash => "trailing '\\'"
  | .unclosedSet => "unclosed character set"
  | .reversedRange low high =>
      "range " ++ low.toString ++ "-" ++ high.toString ++ " is out of order"
  | .classEndsRange => "character class can't end a range"
  | .reversedBounds min max =>
      "\x7b" ++ toString min ++ "," ++ toString max ++ "\x7d: minimum exceeds maximum"

def Fault.error (source : String) (fault : Located Fault) : Error :=
  .invalidExpression fault.content.message source fault.offset

end TextGrammar.Pattern
