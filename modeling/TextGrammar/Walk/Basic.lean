import TextGrammar.Pattern.Basic
import TextGrammar.Tree.Basic

/-!
Walking a sequence over a text.

A walk starts at an offset and tries to match a sequence there. Repetition is
greedy and gives nothing back; the only second chance is the alternate of a
sequence, tried from the offset where the sequence itself started. What a
reference matches is left to a resolver, which may keep a state of its own.

What has been matched is recorded in a trace. An attempt that fails leaves no
record: the walk goes on with the trace from before the attempt. The state of
the resolver is never taken back.

The walk is total for every resolver and at every offset. A walk that would have to
look at the text from an offset that is no place in it ends as `misplaced`, and so
does one in which a repetition would have to go on after all the attempts that the
setting lets it make. A resolver is free to go back or to leave the text, so no
number of attempts is enough for all of them; but a walk that is not misplaced ends
in the same way if its repetitions may make more.
-/

namespace TextGrammar

/-- The part of the text that a group matched. Group 0 is the whole match. -/
structure Capture where
  group : Nat
  start : Nat
  stop : Nat
deriving DecidableEq, Repr

/-- What a walk has recorded so far, the latest record first. -/
structure Trace where
  captures : List Capture := []
  /-- Trees of the references that were matched. -/
  trees : List ParseTree := []

namespace Trace

def addCapture (trace : Trace) (capture : Capture) : Trace :=
  { trace with captures := capture :: trace.captures }

def addTree (trace : Trace) (tree : ParseTree) : Trace :=
  { trace with trees := tree :: trace.trees }

end Trace

/-- How an attempt to match at an offset ends. -/
inductive Outcome (ε : Type) where
  /-- It matched up to an offset. -/
  | reached (stop : Nat)
  | failed
  /-- The resolver gave up the whole walk. -/
  | raised (error : ε)
  /-- It came to no end: the text was to be read from an offset that is no place in
  it, or a repetition was to make more attempts than it may. -/
  | misplaced
deriving DecidableEq, Repr

/-- An attempt with what it leaves behind: the trace, and the resolver's state. -/
structure Walked (ε σ : Type) where
  outcome : Outcome ε
  trace : Trace
  state : σ

/-- Matches a name at an offset. A match may add to the trace that it is given. -/
abbrev Resolver (ε σ : Type) :=
  String → Nat → Trace → σ → Walked ε σ

/-- What a walk works with. -/
structure Setting (ε σ : Type) where
  text : Text
  resolve : Resolver ε σ
  /-- How many attempts a repetition that begins at an offset may make after its
  first one. Where every attempt goes on inside the text, the bytes that are left
  are enough of them. -/
  furtherAttempts : Nat → Nat := fun offset => text.size - offset

variable {ε σ : Type}

/-- Matches one character that passes a test. -/
def Text.matchChar (text : Text) (test : Char → Bool) (offset : Nat) : Outcome ε :=
  match text.rest? offset with
  | none => .misplaced
  | some [] => .failed
  | some (c :: _) => if test c then .reached (offset + c.utf8Size) else .failed

/-- Matches the empty text where a run of word characters starts or ends. -/
def Text.matchWordBoundary (text : Text) (offset : Nat) : Outcome ε :=
  match text.split? offset with
  | none => .misplaced
  | some (front, back) =>
      if front.getLast?.any isWord ≠ back.head?.any isWord then .reached offset else .failed

/-- Repeats an attempt as often as the bounds allow, and says how often it
counted as matched.

An attempt that matches the empty text would match it again and again, so it is
the last one. It counts for the whole minimum if that isn't reached yet, and
not at all otherwise. A repetition that would have to go on after `attempts` of
them comes to no end. -/
def repeatWithin (attempt : Nat → Trace → σ → Walked ε σ) (bounds : Quantifier) :
    (attempts quantity offset : Nat) → Trace → σ → Nat × Walked ε σ
  | attempts, quantity, offset, trace, state =>
    if bounds.allowsMore quantity then
      match attempts with
      | 0 => (quantity, ⟨.misplaced, trace, state⟩)
      | attempts + 1 =>
        let tried := attempt offset trace state
        match tried.outcome with
        | .reached stop =>
            if stop = offset then
              if bounds.min ≤ quantity then (quantity, ⟨.reached offset, trace, tried.state⟩)
              else (bounds.min, tried)
            else repeatWithin attempt bounds attempts (quantity + 1) stop tried.trace tried.state
        | .failed => (quantity, ⟨.reached offset, trace, tried.state⟩)
        | _ => (quantity, tried)
    else (quantity, ⟨.reached offset, trace, state⟩)

/-- Ends the repetition of a node that was entered with a trace: too few matches
are none, and a group that matched is recorded. -/
def settleRepetition (kind : Kind) (bounds : Quantifier) (offset : Nat) (entered : Trace)
    (quantity : Nat) (walked : Walked ε σ) : Walked ε σ :=
  match walked.outcome with
  | .reached stop =>
      if quantity < bounds.min then
        { walked with outcome := .failed, trace := entered }
      else
        match kind.group? with
        | some group =>
            if 0 < quantity then
              { walked with trace := walked.trace.addCapture ⟨group, offset, stop⟩ }
            else walked
        | none => walked
  | _ => walked

mutual

/-- Matches a kind once. -/
def Kind.walk (setting : Setting ε σ) : Kind → Nat → Trace → σ → Walked ε σ
  | .group _ body, offset, trace, state => body.walk setting offset trace state
  | .set items false, offset, trace, state => Node.walkAny setting items offset trace state
  | .set items true, offset, trace, state =>
      let tried := Node.walkAny setting items offset trace state
      match tried.outcome with
      | .reached _ => { tried with outcome := .failed, trace }
      | .failed => { tried with outcome := setting.text.matchChar (fun _ => true) offset }
      | _ => tried
  | .single chars, offset, trace, state =>
      ⟨setting.text.matchChar chars.accepts offset, trace, state⟩
  | .wordBoundary, offset, trace, state =>
      ⟨setting.text.matchWordBoundary offset, trace, state⟩
  | .reference name, offset, trace, state => setting.resolve name offset trace state

/-- Matches a node as often as its bounds ask for. -/
def Node.walk (setting : Setting ε σ) : Node → Nat → Trace → σ → Walked ε σ
  | ⟨kind, quantifier⟩, offset, trace, state =>
      let bounds := quantifier.getD .once
      let (quantity, walked) :=
        repeatWithin (fun offset trace state => kind.walk setting offset trace state) bounds
          (setting.furtherAttempts offset + 1) 0 offset trace state
      settleRepetition kind bounds offset trace quantity walked

/-- Matches nodes one after another. -/
def Node.walkAll (setting : Setting ε σ) : List Node → Nat → Trace → σ → Walked ε σ
  | [], offset, trace, state => ⟨.reached offset, trace, state⟩
  | node :: nodes, offset, trace, state =>
      let walked := node.walk setting offset trace state
      match walked.outcome with
      | .reached stop => Node.walkAll setting nodes stop walked.trace walked.state
      | _ => walked

/-- Matches the first of several nodes that matches once, whatever its quantifier. -/
def Node.walkAny (setting : Setting ε σ) : List Node → Nat → Trace → σ → Walked ε σ
  | [], _, trace, state => ⟨.failed, trace, state⟩
  | ⟨kind, _⟩ :: nodes, offset, trace, state =>
      let walked := kind.walk setting offset trace state
      match walked.outcome with
      | .failed => Node.walkAny setting nodes offset walked.trace walked.state
      | _ => walked

/-- Matches a sequence or else, from the same offset, its alternate. -/
def Sequence.walk (setting : Setting ε σ) : Sequence → Nat → Trace → σ → Walked ε σ
  | .only nodes, offset, trace, state =>
      let walked := Node.walkAll setting nodes offset trace state
      match walked.outcome with
      | .failed => { walked with trace }
      | _ => walked
  | .either nodes alternate, offset, trace, state =>
      let walked := Node.walkAll setting nodes offset trace state
      match walked.outcome with
      | .failed => alternate.walk setting offset trace walked.state
      | _ => walked

end

end TextGrammar
