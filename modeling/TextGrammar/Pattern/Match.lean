import TextGrammar.Pattern.Compile
import TextGrammar.Walk.Basic

/-!
Matching patterns against text.

A match starts exactly at the given offset and need not reach the end of the
text. Of every group it keeps what the group captured last; group 0 is the whole
match.
-/

namespace TextGrammar

/-- A successful match: where it lies, and the captures in the order of their
group numbers, starting with group 0. -/
structure Match where
  start : Nat
  stop : Nat
  captures : List Capture
deriving DecidableEq, Repr

/-- Captures in the order of their groups with one more put in its place, where
it replaces what its group captured before. -/
def Capture.record (capture : Capture) : List Capture → List Capture
  | [] => [capture]
  | first :: rest =>
      if capture.group < first.group then capture :: first :: rest
      else if capture.group = first.group then capture :: rest
      else first :: record capture rest

namespace Match

/-- The match between two offsets with the captures of a trace. -/
def ofTrace (start stop : Nat) (trace : Trace) : Match :=
  let recorded := trace.captures.foldr Capture.record []
  { start, stop, captures := Capture.record ⟨0, start, stop⟩ recorded }

def length (m : Match) : Nat :=
  m.stop - m.start

def isEmpty (m : Match) : Bool :=
  m.stop ≤ m.start

/-- What a group captured, if there is such a group and it took part. -/
def group? (m : Match) (group : Nat) : Option Capture :=
  m.captures.find? fun capture => capture.group = group

end Match

/-- The text that a capture covers. -/
def Capture.text? (capture : Capture) (text : Text) : Option Text :=
  text.slice? capture.start capture.stop

namespace Pattern

/-- References in a pattern match nothing. -/
def noReferences : Resolver Empty Unit :=
  fun _ _ trace state => ⟨.failed, trace, state⟩

def walk (pattern : Pattern) (text : Text) (offset : Nat) : Walked Empty Unit :=
  pattern.root.walk { text, resolve := noReferences } offset { } ()

/-- Matches the pattern at an offset; past the end and inside a character there
is no match. -/
def matchAt? (pattern : Pattern) (text : Text) (offset : Nat) : Option Match :=
  if (text.rest? offset).isSome then
    let walked := pattern.walk text offset
    match walked.outcome with
    | .reached stop => some (.ofTrace offset stop walked.trace)
    | _ => none
  else none

/-- Matches the pattern at the start of a text. -/
def matches? (pattern : Pattern) (text : Text) : Option Match :=
  pattern.matchAt? text 0

end Pattern

end TextGrammar
