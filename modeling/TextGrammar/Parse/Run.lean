import TextGrammar.Grammar.Compile
import TextGrammar.Parse.Event
import TextGrammar.Parse.Progress
import TextGrammar.Walk.Basic

/-!
Parsing an input with a grammar.

A reference is a token or a production. A token is matched by its pattern, after
whitespace if that is skipped. A production is matched by walking its expression
in the same way again, unless what it comes to is remembered, too many
productions are inside one another, or it is already being matched at the same
offset.

Every production inside another uses up some room, and the recursion limit says
how much room there is; so the recursion ends, whatever the grammar.
-/

namespace TextGrammar

/-- How far a parse has come and what has happened in it, the last event first. -/
structure ParseState where
  progress : Progress := {}
  events : List ParseEvent := []

namespace ParseState

def report (state : ParseState) (event : ParseEvent) : ParseState :=
  { state with events := event :: state.events }

def update (state : ParseState) (change : Progress → Progress) : ParseState :=
  { state with progress := change state.progress }

end ParseState

/-- A walk whose references are resolved by a parse. -/
abbrev ParseWalk := Walked Error ParseState

namespace Grammar

/-! ### Tokens -/

/-- Where a token that is looked for at an offset has to start. -/
def tokenStart? (grammar : Grammar) (text : Text) (offset : Nat) : Option Nat :=
  if grammar.options.skipWhitespace then text.skipWhitespace? offset else some offset

/-- Matches a token. Its match must not be empty; a failure is noted as
something expected. -/
def matchToken (grammar : Grammar) (text : Text) (name : String) (pattern : Pattern)
    (offset : Nat) (trace : Trace) (state : ParseState) : ParseWalk :=
  match grammar.tokenStart? text offset with
  | none => ⟨.misplaced, trace, state⟩
  | some start =>
      match (pattern.matchAt? text start).filter fun m => !m.isEmpty with
      | none =>
          let state := state.report (.tokenFailed name start)
          ⟨.failed, trace, state.update (·.expect name start)⟩
      | some m =>
          match text.slice? start m.stop with
          | none => ⟨.misplaced, trace, state⟩
          | some value =>
              let state := state.report (.tokenMatched name start m.stop)
              let leaf := ParseTree.leaf name (String.ofList value) start
              ⟨.reached m.stop, trace.addTree leaf, state⟩

/-! ### Productions -/

/-- Ends the attempt at a production with what it came to. -/
def concludeProduction (outcome : Remembered) (trace : Trace) (state : ParseState) : ParseWalk :=
  match outcome with
  | some (stop, tree) => ⟨.reached stop, trace.addTree tree, state⟩
  | none => ⟨.failed, trace, state⟩

/-- What is remembered of a production, if the grammar lets productions be
remembered. -/
def remembered? (grammar : Grammar) (key : ProductionAt) (progress : Progress) :
    Option Remembered :=
  if grammar.options.memoize then progress.remembered? key else none

/-- Leaves a production whose expression matched or failed. The outcome is
remembered only if no production was refused on the way to it, for then it might
depend on what was active. -/
def leaveProduction (grammar : Grammar) (key : ProductionAt) (refusalsBefore : Nat)
    (outcome : Remembered) (trace : Trace) (state : ParseState) : ParseWalk :=
  let state := state.report (.left key.production key.offset (outcome.map Prod.snd))
  let state :=
    if grammar.options.memoize ∧ state.progress.refusals = refusalsBefore then
      state.update (·.remember key outcome)
    else state
  concludeProduction outcome trace state

/-- Matches a production by its expression, whose references are resolved by
`resolve`. -/
def matchProduction (grammar : Grammar) (text : Text) (resolve : Resolver Error ParseState)
    (expression : Expression) (key : ProductionAt) (trace : Trace) (state : ParseState) :
    ParseWalk :=
  let walked :=
    expression.root.walk { text, resolve } key.offset { } (state.update (·.enter key))
  let after := walked.state.update (·.exit key)
  let refusalsBefore := state.progress.refusals
  match walked.outcome with
  | .reached stop =>
      let tree := ParseTree.production key.production walked.trace.trees.reverse
      grammar.leaveProduction key refusalsBefore (some (stop, tree)) trace after
  | .failed => grammar.leaveProduction key refusalsBefore none trace after
  | .raised error => ⟨.raised error, trace, after⟩
  | .misplaced => ⟨.misplaced, trace, after⟩

/-! ### References -/

/-- Matches what a name stands for, with room for that many productions inside
one another. -/
def resolveWithin (grammar : Grammar) (text : Text) (room : Nat) : Resolver Error ParseState :=
  fun name offset trace state =>
    match grammar.token? name, grammar.production? name with
    | some pattern, _ => grammar.matchToken text name pattern offset trace state
    | none, none => ⟨.raised (.unknownIdentifier name grammar.start), trace, state⟩
    | none, some expression =>
        let key := ⟨name, offset⟩
        match grammar.remembered? key state.progress with
        | some outcome =>
            concludeProduction outcome trace (state.report (.recalled name offset))
        | none =>
            match room with
            | 0 =>
                let state := state.report (.limitReached name offset)
                ⟨.raised (.recursionLimit name offset), trace, state⟩
            | room + 1 =>
                if state.progress.isActive key then
                  let state := state.report (.refused name offset)
                  ⟨.failed, trace, state.update (·.refuse)⟩
                else
                  grammar.matchProduction text (grammar.resolveWithin text room) expression
                    key trace state

/-- How many more productions can be entered. -/
def room (grammar : Grammar) (progress : Progress) : Nat :=
  grammar.options.recursionLimit - progress.depth

def resolve (grammar : Grammar) (text : Text) : Resolver Error ParseState :=
  fun name offset trace state =>
    grammar.resolveWithin text (grammar.room state.progress) name offset trace state

end Grammar

/-! ### Whole inputs -/

/-- What a parse comes to. -/
inductive Verdict where
  | tree (tree : ParseTree)
  | error (error : Error)
  /-- The input was to be read from an offset that is no place in it. -/
  | misplaced

structure Parse where
  verdict : Verdict
  /-- What happened, from first to last. -/
  events : List ParseEvent

namespace Grammar

/-- The verdict once the start production has matched up to an offset: if the
input has to be matched completely it must end there, but for whitespace if that
is skipped. -/
def conclude (grammar : Grammar) (text : Text) (stop : Nat) (trace : Trace)
    (progress : Progress) : Verdict :=
  let options := grammar.options
  let stop? :=
    if options.complete ∧ options.skipWhitespace then text.skipWhitespace? stop else some stop
  match stop? with
  | none => .misplaced
  | some stop =>
      let unfinished := .error (progress.expect "end of input" stop).error
      if options.complete ∧ stop ≠ text.size then unfinished
      else
        match trace.trees with
        | tree :: _ => .tree tree
        | [] => unfinished

/-- Matches the start production at the start of the text. -/
def walkStart (grammar : Grammar) (text : Text) : ParseWalk :=
  grammar.resolve text grammar.start 0 { } { }

/-- Parses an input and keeps account of it. -/
def run (grammar : Grammar) (text : Text) : Parse :=
  let walked := grammar.walkStart text
  let verdict :=
    match walked.outcome with
    | .reached stop => grammar.conclude text stop walked.trace walked.state.progress
    | .failed => .error walked.state.progress.error
    | .raised error => .error error
    | .misplaced => .misplaced
  { verdict, events := walked.state.events.reverse }

def parse (grammar : Grammar) (text : Text) : Verdict :=
  (grammar.run text).verdict

/-- What is logged while an input is parsed, if every place that is to be shown
is a place in the input. -/
def log? (grammar : Grammar) (text : Text) : Option (List LogRecord) :=
  (grammar.run text).events.mapM (ParseEvent.record? text)

end Grammar

end TextGrammar
