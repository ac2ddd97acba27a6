/-!
Log records.

What a compilation or a parse reports of its course is a list of records. Debug
records tell results; trace records tell every step as well.
-/

namespace TextGrammar

/-- How detailed a record is. -/
inductive LogLevel where
  | debug
  | trace
deriving DecidableEq, Repr

def LogLevel.name : LogLevel → String
  | .debug => "DEBUG"
  | .trace => "TRACE"

/-- A line of the log: what it is about, and what it says. -/
structure LogRecord where
  level : LogLevel
  target : String
  text : String
deriving DecidableEq, Repr

/-- The records to be shown at a level; the trace level shows all. -/
def LogLevel.select (level : LogLevel) (records : List LogRecord) : List LogRecord :=
  records.filter fun record => level = .trace || record.level = .debug

end TextGrammar
