import TextGrammar.Proofs.Parse.Verdict
import TextGrammar.Proofs.Walk.Calls

/-!
How deep and how long a parse goes on.

`Grammar.Reaches` lists the walks that are begun while a text is parsed: those
that a walk begins by itself, and the walk of an expression when its production
is entered. In all of them a parse keeps its contract, so that not more
productions are inside one another than there are pairs of a production and an
offset, and no repetition makes more attempts than the text has room for.
-/

namespace TextGrammar

namespace Grammar

/-- The walks that are begun while a text is parsed, each with the room that is
left for more productions. -/
inductive Reaches (grammar : Grammar) (text : Text) : Nat → Activation ParseState → Prop where
  | start : Reaches grammar text grammar.options.recursionLimit
      ⟨.kind (.reference grammar.start), 0, {}, {}⟩
  | call {room : Nat} {caller callee : Activation ParseState} :
      Reaches grammar text room caller →
      caller.Calls { text, resolve := grammar.resolveWithin text room } callee →
      Reaches grammar text room callee
  | enter {room : Nat} {name : String} {offset : Nat} {trace : Trace} {state : ParseState}
      {expression : Expression} :
      Reaches grammar text (room + 1) ⟨.kind (.reference name), offset, trace, state⟩ →
      grammar.token? name = none → grammar.production? name = some expression →
      grammar.remembered? ⟨name, offset⟩ state.progress = none →
      ⟨name, offset⟩ ∉ state.progress.active →
      Reaches grammar text room
        ⟨.sequence expression.root, offset, {}, state.update (·.enter ⟨name, offset⟩)⟩

variable {grammar : Grammar} {text : Text} {room : Nat} {activation : Activation ParseState}

/-- Every walk keeps the contract for the productions that are active in it. They
make up the recursion limit with the room that is left. -/
theorem Reaches.sound (closed : grammar.Closed) (reaches : grammar.Reaches text room activation) :
    ∃ active, grammar.Stack text active ∧
      active.length + room = grammar.options.recursionLimit ∧
      activation.Sound (grammar.contract text active)
        { text, resolve := grammar.resolveWithin text room } := by
  induction reaches with
  | start =>
      refine ⟨[], .nil grammar text, Nat.zero_add _, ?_, text.isPlace_zero,
        grammar.recalls_of_start text⟩
      intro kind mem
      obtain rfl : kind = .reference grammar.start := by simpa [Task.kinds, Kind.visit] using mem
      exact closed.meets_start
  | call _ calls ih =>
      obtain ⟨active, stack, limit, sound⟩ := ih
      have lawful := resolveWithin_lawful closed text _ active stack limit
      exact ⟨active, stack, limit, sound.calls lawful calls⟩
  | @enter room name offset trace state expression _ noToken found _ inactive ih =>
      obtain ⟨active, stack, limit, sound⟩ := ih
      have same : state.progress.active = active := sound.holds.1
      rw [same] at inactive
      refine ⟨⟨name, offset⟩ :: active, stack.cons found inactive sound.place.le_size, ?_, ?_,
        sound.place, ?_⟩
      · rw [List.length_cons]
        omega
      · intro kind mem
        obtain ⟨node, inside, rfl⟩ := List.mem_map.mp mem
        exact closed.meets found node inside
      · refine ⟨?_, sound.holds.2⟩
        rw [ParseState.progress_update, Progress.active_enter, same]

end Grammar

namespace Definition

variable {definition : Definition} {grammar : Grammar}

/-- A parse ends with a tree or an error, whatever the recursion limit. Not more
productions are inside one another than there are pairs of a production and an
offset, so that a larger limit is never reached. And no repetition, in a
production or in a token, makes more attempts than there are bytes left where it
begins, and one. -/
theorem parse_terminates (compiled : definition.compile = .ok grammar) (text : Text) :
    ((∃ tree, grammar.parse text = .tree tree) ∨ ∃ error, grammar.parse text = .error error) ∧
      (∀ room activation, grammar.Reaches text room activation →
        activation.state.progress.depth ≤ grammar.productions.length * (text.size + 1)) ∧
      (grammar.productions.length * (text.size + 1) < grammar.options.recursionLimit →
        ∀ name offset, grammar.parse text ≠ .error (.recursionLimit name offset)) ∧
      (∀ room activation, grammar.Reaches text room activation →
        ∀ number, activation.Attempts { text, resolve := grammar.resolveWithin text room } number →
          number ≤ text.size - activation.offset + 1) ∧
      ∀ (pattern : Pattern) (offset : Nat), text.IsPlace offset → ∀ activation,
        Activation.Reaches { text, resolve := Pattern.noReferences }
          ⟨.sequence pattern.root, offset, {}, ()⟩ activation →
        ∀ number, activation.Attempts { text, resolve := Pattern.noReferences } number →
          number ≤ text.size - activation.offset + 1 := by
  have closed := closed_of_compile_eq_ok compiled
  refine ⟨?_, ?_, ?_, ?_, ?_⟩
  · cases verdict : grammar.parse text with
    | tree tree => exact .inl ⟨tree, rfl⟩
    | error error => exact .inr ⟨error, rfl⟩
    | misplaced => exact absurd verdict (grammar.parse_ne_misplaced closed text)
  · intro room activation reaches
    obtain ⟨active, stack, _, sound⟩ := reaches.sound closed
    unfold Progress.depth
    rw [sound.holds.1]
    exact stack.length_le
  · intro large name offset parsed
    rcases Grammar.parse_eq_error closed parsed with ⟨expected, at_, other⟩ | ⟨_, small⟩
    · cases other
    · omega
  · intro room activation reaches number attempts
    obtain ⟨active, stack, limit, sound⟩ := reaches.sound closed
    have lawful := Grammar.resolveWithin_lawful closed text room active stack limit
    exact sound.attempts_le lawful attempts
  · intro pattern offset place activation reaches number attempts
    have lawful := Pattern.contract_lawful text
    have sound : Activation.Sound Pattern.contract { text, resolve := Pattern.noReferences }
        ⟨.sequence pattern.root, offset, {}, ()⟩ := ⟨fun _ _ => trivial, place, trivial⟩
    exact (sound.reaches lawful reaches).attempts_le lawful attempts

/-- Two productions that begin with one another and may match nothing, repeated
without end. -/
def circular : Definition where
  start := "list"
  tokens := [⟨"word", "[a-z]*"⟩]
  productions := [⟨"list", "(item*)+"⟩, ⟨"item", "list? word?"⟩]

theorem circular_terminates :
    ∃ grammar, circular.compile = .ok grammar ∧
      (∃ tree, grammar.parse "a b".toList = .tree tree) ∧
      ∀ room activation, grammar.Reaches "a b".toList room activation →
        activation.state.progress.depth ≤ 8 := by
  obtain ⟨grammar, tree, compiled, parsed, count⟩ :=
    exists_of_yields circular "a b".toList
      (show yields _ _ (fun grammar _ => grammar.productions.length == 2) = true by decide +kernel)
  have bound := (parse_terminates compiled "a b".toList).2.1
  rw [eq_of_beq count] at bound
  exact ⟨grammar, compiled, ⟨tree, parsed⟩, bound⟩

end Definition

end TextGrammar
