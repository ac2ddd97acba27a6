import Mathlib.Data.List.Nodup
import TextGrammar.Proofs.Parse.Growth
import TextGrammar.Proofs.Parse.Nesting
import TextGrammar.Proofs.Walk.Ends

/-!
The order in which productions are entered and left.

The active productions are a stack on every path of a parse. A walk leaves them
as it found them, however it ends; and as no walk begins before the one that
begins it, their offsets never decrease in the order in which they were entered
(`Grammar.Reaches.upTo`). So a production is refused only where nothing has been
matched since it was entered.
-/

namespace TextGrammar

namespace Progress

/-- The active productions in the order in which they were entered. -/
def entered (progress : Progress) : List ProductionAt :=
  progress.active.reverse

/-- The active productions are different, each was entered at or after the offset
of the one around it, and there are not more of them than a limit. -/
structure Disciplined (progress : Progress) (limit : Nat) : Prop where
  distinct : progress.entered.Nodup
  ordered : progress.entered.Pairwise fun outer inner => outer.offset ≤ inner.offset
  limited : progress.entered.length ≤ limit

end Progress

/-- The offsets of productions, the one entered last first, never increase, nor is
any of them after the given one. -/
def UpTo (offset : Nat) (active : List ProductionAt) : Prop :=
  (∀ key ∈ active, key.offset ≤ offset) ∧
    active.Pairwise fun inner outer => outer.offset ≤ inner.offset

namespace UpTo

variable {offset : Nat} {active : List ProductionAt}

theorem nil (offset : Nat) : UpTo offset [] :=
  ⟨by simp, .nil⟩

theorem mono {offset' : Nat} (upTo : UpTo offset active) (le : offset ≤ offset') :
    UpTo offset' active :=
  ⟨fun key mem => Nat.le_trans (upTo.1 key mem) le, upTo.2⟩

/-- A production may be entered at the offset that the others come up to. -/
theorem enter (upTo : UpTo offset active) (name : String) :
    UpTo offset (⟨name, offset⟩ :: active) :=
  ⟨List.forall_mem_cons.mpr ⟨Nat.le_refl _, upTo.1⟩, .cons upTo.1 upTo.2⟩

/-- What has been entered since a production at the last offset was entered there, too. -/
theorem eq_of_mem {name : String} {newer older : List ProductionAt}
    (upTo : UpTo offset (newer ++ ⟨name, offset⟩ :: older)) :
    ∀ key ∈ newer, key.offset = offset := by
  intro key mem
  have atMost : key.offset ≤ offset := upTo.1 key (List.mem_append_left _ mem)
  have atLeast : offset ≤ key.offset :=
    (List.pairwise_append.mp upTo.2).2.2 key mem ⟨name, offset⟩ List.mem_cons_self
  exact Nat.le_antisymm atMost atLeast

end UpTo

namespace Grammar

variable {grammar : Grammar} {text : Text} {room : Nat} {activation : Activation ParseState}

/-- The states in which walks of a parse begin and end. -/
inductive Occurs (grammar : Grammar) (text : Text) : ParseState → Prop where
  | begun {room : Nat} {activation : Activation ParseState} :
      grammar.Reaches text room activation → Occurs grammar text activation.state
  | ended {room : Nat} {activation : Activation ParseState} :
      grammar.Reaches text room activation →
      Occurs grammar text
        (activation.walk { text, resolve := grammar.resolveWithin text room }).state

/-- A walk ends with the productions active that were active when it began, whether
it matches, fails or is given up. -/
theorem active_walk (grammar : Grammar) (text : Text) (room : Nat)
    (activation : Activation ParseState) :
    (activation.walk { text, resolve := grammar.resolveWithin text room }).state.progress.active =
      activation.state.progress.active := by
  have grows := activation.walk_keeps (keeps_grows text activation.state.progress
    (grammar.resolveWithin_grows text room)) (.refl _)
  exact grows.active

/-- Where a walk begins, the active productions come up to its offset. -/
theorem Reaches.upTo (closed : grammar.Closed) (reaches : grammar.Reaches text room activation) :
    UpTo activation.offset activation.state.progress.active := by
  induction reaches with
  | start => exact .nil 0
  | call reaches calls ih =>
      obtain ⟨active, stack, limit, sound⟩ := reaches.sound closed
      have lawful := resolveWithin_lawful closed text _ active stack limit
      have same := (sound.calls lawful calls).holds.1.trans sound.holds.1.symm
      rw [same]
      exact ih.mono (sound.offset_le lawful calls)
  | @enter room name offset trace state expression _ _ _ _ _ ih =>
      rw [ParseState.progress_update, Progress.active_enter]
      exact ih.enter name

theorem Reaches.disciplined (closed : grammar.Closed)
    (reaches : grammar.Reaches text room activation) :
    activation.state.progress.Disciplined grammar.options.recursionLimit := by
  obtain ⟨active, stack, limit, sound⟩ := reaches.sound closed
  have upTo := reaches.upTo closed
  have same : activation.state.progress.active = active := sound.holds.1
  rw [same] at upTo
  refine ⟨?_, ?_, ?_⟩
  · rw [Progress.entered, same, List.nodup_reverse]
    exact stack.nodup
  · rw [Progress.entered, same, List.pairwise_reverse]
    exact upTo.2
  · rw [Progress.entered, same, List.length_reverse]
    omega

/-- The active productions are a stack in all states that a parse goes through. -/
theorem Occurs.disciplined {state : ParseState} (closed : grammar.Closed)
    (occurs : grammar.Occurs text state) :
    state.progress.Disciplined grammar.options.recursionLimit := by
  cases occurs with
  | begun reaches => exact reaches.disciplined closed
  | @ended room activation reaches =>
      have same := active_walk grammar text room activation
      have before := reaches.disciplined closed
      constructor
      · rw [Progress.entered, same]
        exact before.distinct
      · rw [Progress.entered, same]
        exact before.ordered
      · rw [Progress.entered, same]
        exact before.limited

/-- How a name is resolved whose production is refused. -/
def refusal (name : String) (offset : Nat) (trace : Trace) (state : ParseState) : ParseWalk :=
  ⟨.failed, trace, (state.report (.refused name offset)).update (·.refuse)⟩

/-- A production is refused only if it is active. -/
theorem mem_active_of_refusal {name : String} {offset : Nat} {trace : Trace} {state : ParseState}
    (refused : grammar.resolveWithin text room name offset trace state =
      refusal name offset trace state) : ⟨name, offset⟩ ∈ state.progress.active := by
  -- A refusal is the only event of its step, and the only step that counts as one.
  have reported := congrArg (fun walked : ParseWalk => walked.state.events.head?) refused
  have counted := congrArg (fun walked : ParseWalk => walked.state.progress.refusals) refused
  have failed := congrArg Walked.outcome refused
  have resolution := grammar.resolution text room name offset trace state
  generalize grammar.resolveWithin text room name offset trace state = walked
    at resolution reported counted failed
  cases resolution with
  | @token room pattern found =>
      rcases grammar.matchToken_cases text name pattern offset trace with
        ⟨start, fails⟩ | ⟨outcome, after, events, _, passes⟩
      · rw [fails state] at counted
        simp [refusal] at counted
      · rw [passes state] at counted
        simp [refusal] at counted
  | unknown _ _ => simp [refusal] at failed
  | recalled _ _ _ =>
      rw [state_concludeProduction] at counted
      simp [refusal] at counted
  | limited _ _ _ => simp [refusal] at failed
  | refused _ _ _ active => exact active
  | @entered room expression _ _ _ _ =>
      cases concluded : conclusion? name (expression.root.walk
          { text, resolve := grammar.resolveWithin text room } offset {}
          (state.update (·.enter ⟨name, offset⟩))) with
      | some outcome =>
          rw [matchProduction_of_concluded rfl concluded, events_leaveProduction] at reported
          simp [refusal, ParseState.report, ParseState.update] at reported
      | none =>
          rw [matchProduction_of_not_concluded rfl concluded] at failed
          simp only [refusal] at failed
          simp [conclusion?, failed] at concluded

end Grammar

namespace Definition

variable {definition : Definition} {grammar : Grammar}

/-- The active productions are a stack: in every state of a parse they are different,
come in the order of their offsets and keep to the recursion limit, and every walk,
whatever it comes to, leaves them as they were. So where a production is refused,
all that was entered since it was entered itself was entered at the same offset. -/
theorem active_discipline (compiled : definition.compile = .ok grammar) (text : Text) :
    (∀ state, grammar.Occurs text state →
        state.progress.Disciplined grammar.options.recursionLimit) ∧
      (∀ room (activation : Activation ParseState),
        (activation.walk
            { text, resolve := grammar.resolveWithin text room }).state.progress.active =
          activation.state.progress.active) ∧
      ∀ room name offset trace state,
        grammar.Reaches text room ⟨.kind (.reference name), offset, trace, state⟩ →
        grammar.resolveWithin text room name offset trace state =
          Grammar.refusal name offset trace state →
        ∃ outer inner, state.progress.entered = outer ++ ⟨name, offset⟩ :: inner ∧
          ∀ key ∈ inner, key.offset = offset := by
  have closed := closed_of_compile_eq_ok compiled
  refine ⟨fun state occurs => occurs.disciplined closed, grammar.active_walk text, ?_⟩
  intro room name offset trace state reaches refused
  have upTo := reaches.upTo closed
  obtain ⟨newer, older, split⟩ := List.append_of_mem (Grammar.mem_active_of_refusal refused)
  simp only [split] at upTo
  refine ⟨older.reverse, newer.reverse, by simp [Progress.entered, split], ?_⟩
  intro key mem
  exact upTo.eq_of_mem key (List.mem_reverse.mp mem)

/-- Sums that begin with a sum. -/
def leftward : Definition where
  start := "sum"
  tokens := [⟨"number", "[0-9]+"⟩, ⟨"plus", "\\+"⟩]
  productions := [⟨"sum", "sum plus number|number"⟩]
  options := { recursionLimit := 2 }

/-- Whether the grammar begins its sums with a sum. -/
def beginsWithSum (grammar : Grammar) : Bool :=
  match grammar.production? "sum" with
  | some expression =>
      match expression.root.nodes with
      | ⟨.reference "sum", none⟩ :: _ => true
      | _ => false
  | none => false

/-- Where the start of such sums has just been entered. -/
def inSum : ParseState :=
  ParseState.update {} (·.enter ⟨"sum", 0⟩)

/-- The sum that a sum begins with is refused, as that is the sum itself. -/
theorem leftward_discipline :
    ∃ grammar room trace state, leftward.compile = .ok grammar ∧
      grammar.Reaches "1".toList room ⟨.kind (.reference "sum"), 0, trace, state⟩ ∧
      grammar.resolveWithin "1".toList room "sum" 0 trace state =
        Grammar.refusal "sum" 0 trace state ∧
      ∃ outer inner, state.progress.entered = outer ++ ⟨"sum", 0⟩ :: inner ∧
        ∀ key ∈ inner, key.offset = 0 := by
  obtain ⟨grammar, _, compiled, _, test⟩ := exists_of_yields leftward "1".toList
    (show leftward.yields _ (fun grammar _ => decide (grammar.start = "sum" ∧
      grammar.options.recursionLimit = 2 ∧ grammar.options.memoize = false ∧
      (grammar.token? "sum").isNone = true ∧ beginsWithSum grammar = true)) = true by
        decide +kernel)
  obtain ⟨start, limit, keepsNone, noToken, begins⟩ := of_decide_eq_true test
  unfold beginsWithSum at begins
  split at begins
  · rename_i expression found
    split at begins
    · rename_i nodes first
      have isProduction := Option.isNone_iff_eq_none.mp noToken
      have forgotten : ∀ progress, grammar.remembered? ⟨"sum", 0⟩ progress = none := by
        intro progress
        simp [Grammar.remembered?, keepsNone]
      have outer : grammar.Reaches "1".toList 2 ⟨.kind (.reference "sum"), 0, {}, {}⟩ := by
        rw [← limit, ← start]
        exact .start
      have body : grammar.Reaches "1".toList 1 ⟨.sequence expression.root, 0, {}, inSum⟩ :=
        .enter outer isProduction found (forgotten _) (by simp)
      have nodes : grammar.Reaches "1".toList 1
          ⟨.all (⟨.reference "sum", none⟩ :: nodes), 0, {}, inSum⟩ := by
        rw [← first]
        exact .call body .nodes
      have inner : grammar.Reaches "1".toList 1 ⟨.kind (.reference "sum"), 0, {}, inSum⟩ :=
        .call (.call nodes .first) (.attempt .start rfl)
      have refused : grammar.resolveWithin "1".toList 1 "sum" 0 {} inSum =
          Grammar.refusal "sum" 0 {} inSum :=
        Grammar.resolveWithin_of_active isProduction found (forgotten _)
          (List.mem_singleton_self _) 0
      obtain ⟨_, _, since⟩ := active_discipline compiled "1".toList
      exact ⟨grammar, 1, {}, inSum, compiled, inner, refused,
        since 1 "sum" 0 {} inSum inner refused⟩
    · cases begins
  · cases begins

end Definition

end TextGrammar
