import TextGrammar.LogRecord
import TextGrammar.Text
import TextGrammar.Tree.Basic

/-!
What happens during a parse, and how it is logged.

A parse reports plain events; a log record is read off an event and the input.
The record of a matched production shows the lines it lies in, so it needs the
places of the event to be places of the input: `ParseEvent.record?` is `none`
where one of them is not.
-/

namespace TextGrammar

/-- A step of a parse. -/
inductive ParseEvent where
  /-- A token matched the text between two offsets. -/
  | tokenMatched (token : String) (start stop : Nat)
  | tokenFailed (token : String) (start : Nat)
  /-- A production was not matched again, as its outcome was remembered. -/
  | recalled (production : String) (offset : Nat)
  /-- A production was not entered, as too many are inside one another. -/
  | limitReached (production : String) (offset : Nat)
  /-- A production was not entered, as it is active at the same offset. -/
  | refused (production : String) (offset : Nat)
  /-- A production was left, with its tree if it matched. -/
  | left (production : String) (offset : Nat) (tree : Option ParseTree)

/-- Text with every line feed made visible in front of itself. -/
def Text.showLineFeeds : Text → Text
  | [] => []
  | '\n' :: cs => '\\' :: 'n' :: '\n' :: showLineFeeds cs
  | c :: cs => c :: showLineFeeds cs

/-- The end of the line that a text breaks off in. -/
def Text.lastLine (text : Text) : Text :=
  (text.reverse.takeWhile (· ≠ '\n')).reverse

/-- The start of a text up to its first line feed. -/
def Text.firstLine (text : Text) : Text :=
  text.takeWhile (· ≠ '\n')

/-- The lines around the text between two offsets, of a production that was
entered at a third: what was skipped and what was matched show their line feeds,
and an empty match is a bar. -/
def Text.highlight? (text : Text) (offset start stop : Nat) : Option String := do
  let (front, _) ← text.split? offset
  let skipped ← text.slice? offset start
  let matched ← text.slice? start stop
  let back ← text.rest? stop
  let remark := if start < stop then "" else "(empty @'|')"
  let shown := if start < stop then Text.showLineFeeds matched else ['|']
  let lines :=
    Text.lastLine front ++ Text.showLineFeeds skipped ++ shown ++ Text.firstLine back
  return remark ++ "\n" ++ String.ofList lines

namespace ParseEvent

/-- The name that a record is about, with the offset. -/
def target (name : String) (offset : Nat) : String :=
  s!"{name}@{offset}"

/-- What is logged of an event in the parse of a text. -/
def record? (text : Text) : ParseEvent → Option LogRecord
  | .tokenMatched token start stop => do
      let value := String.ofList (← text.slice? start stop)
      return ⟨.trace, target token start, s!"matched '{value}'"⟩
  | .tokenFailed token start => some ⟨.trace, target token start, "no match"⟩
  | .recalled production offset => some ⟨.trace, target production offset, "cache hit"⟩
  | .limitReached production offset =>
      some ⟨.debug, target production offset, "recursion limit reached"⟩
  | .refused production offset =>
      some ⟨.trace, target production offset, "already being matched here"⟩
  | .left production offset none => some ⟨.debug, target production offset, "ERR"⟩
  | .left production offset (some tree) => do
      let (start, stop) := tree.range?.getD (offset, offset)
      let lines ← text.highlight? offset start stop
      return ⟨.debug, target production offset, "OK " ++ lines⟩

end ParseEvent

end TextGrammar
