import TextGrammar.Error
import TextGrammar.Tree.Basic

/-!
What a parse keeps in mind while it runs.

`Progress` knows the productions that are being matched, and where each was
entered; to enter one again at the same offset would never end, so that is
refused. It collects what was expected at the furthest offset where a token
failed, and it may remember what productions have come to.
-/

namespace TextGrammar

/-- A production at an offset. -/
structure ProductionAt where
  production : String
  offset : Nat
deriving DecidableEq, Repr

/-- What matching a production came to: the end and the tree, or nothing. -/
abbrev Remembered := Option (Nat × ParseTree)

/-- How far a parse has come. -/
structure Progress where
  /-- The productions being matched, the one entered last first. -/
  active : List ProductionAt := []
  /-- How often entering a production was refused. -/
  refusals : Nat := 0
  /-- The furthest offset where something expected was not there. -/
  furthest : Nat := 0
  /-- What was expected there, each once, in the order of the first failures. -/
  expected : List String := []
  /-- What productions have come to; no production at an offset is kept twice. -/
  memo : List (ProductionAt × Remembered) := []

namespace Progress

def isActive (progress : Progress) (key : ProductionAt) : Bool :=
  key ∈ progress.active

/-- Starts to match a production that is not active. -/
def enter (progress : Progress) (key : ProductionAt) : Progress :=
  { progress with active := key :: progress.active }

/-- Counts a production that was not entered because it is active. -/
def refuse (progress : Progress) : Progress :=
  { progress with refusals := progress.refusals + 1 }

/-- Starts to match a production unless it is active, and says whether it did. -/
def tryEnter (progress : Progress) (key : ProductionAt) : Bool × Progress :=
  if progress.isActive key then (false, progress.refuse) else (true, progress.enter key)

def exit (progress : Progress) (key : ProductionAt) : Progress :=
  { progress with active := progress.active.erase key }

/-- How many productions are inside one another. -/
def depth (progress : Progress) : Nat :=
  progress.active.length

/-- Notes that something was expected at an offset and was not there. Only the
furthest offset counts. -/
def expect (progress : Progress) (name : String) (offset : Nat) : Progress :=
  if progress.furthest < offset then
    { progress with furthest := offset, expected := [name] }
  else if offset = progress.furthest ∧ name ∉ progress.expected then
    { progress with expected := progress.expected ++ [name] }
  else progress

/-- The error that tells what was expected at the furthest offset. -/
def error (progress : Progress) : Error :=
  .parseError progress.expected progress.furthest

/-- Remembers what a production came to, in place of anything remembered before. -/
def remember (progress : Progress) (key : ProductionAt) (outcome : Remembered) : Progress :=
  { progress with memo := (key, outcome) :: progress.memo.filter fun entry => entry.1 ≠ key }

def remembered? (progress : Progress) (key : ProductionAt) : Option Remembered :=
  progress.memo.lookup key

end Progress

end TextGrammar
