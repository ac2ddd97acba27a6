import TextGrammar.Proofs.Parse.Failures
import TextGrammar.Proofs.Walk.Assertion

/-!
How far a parse has come when it fails.

A parse that fails tells the furthest offset where a token was missed. A token may have
matched further on: where a sequence fails behind it for another reason, that is not
noted. There are three such reasons: a negated set, a set with nothing in it, and a
production that is refused. Where there is none of them, a walk fails only because a
token was missed where it stood or further on (`Grammar.progressing`). Then no token
has matched beyond the offset that is told (`Definition.stop_le_of_parseError`).
-/

namespace TextGrammar

/-- What is expected moves the furthest offset on, and never back. -/
theorem Progress.furthest_expect (progress : Progress) (name : String) (offset : Nat) :
    (progress.expect name offset).furthest = max progress.furthest offset := by
  unfold expect
  split
  · simp only
    omega
  · split
    · simp only
      omega
    · omega

namespace Grammar

/-! ### Where a walk stands and where it has failed -/

/-- Some production has been refused. -/
def HasRefused (state : ParseState) : Prop :=
  ∃ name offset, .refused name offset ∈ state.events

/-- Matches that are remembered don't go back. -/
def Onward (state : ParseState) : Prop :=
  ∀ key stop tree, (key, some (stop, tree)) ∈ state.progress.memo → key.offset ≤ stop

/-- No token has matched beyond an offset and the furthest one where a token was missed;
and what is remembered to fail has missed a token there or further on. -/
structure KeepsUp (state : ParseState) (offset : Nat) : Prop where
  matched : ∀ token start stop, .tokenMatched token start stop ∈ state.events →
    stop ≤ max state.progress.furthest offset
  missed : ∀ key, (key, none) ∈ state.progress.memo → key.offset ≤ state.progress.furthest

/-- What is true of a state in which a walk stands at an offset. -/
structure Stands (offset : Nat) (state : ParseState) : Prop where
  onward : Onward state
  keepsUp : HasRefused state ∨ KeepsUp state offset

/-- What is true of the state that a walk leaves which began at an offset and failed. -/
structure Fails (offset : Nat) (state : ParseState) : Prop where
  onward : Onward state
  missed : HasRefused state ∨ KeepsUp state offset ∧ offset ≤ state.progress.furthest

/-- Unless a production is refused, no token has matched beyond where a walk stands and
the furthest offset where a token was missed; and where a walk fails, a token was missed
there or further on. -/
def progressing : Assertion ParseState where
  meets := Node.Defers
  stands := fun offset _ state => Stands offset state
  fails := Fails

section States

variable {grammar : Grammar} {text : Text} {offset stop : Nat} {state state' : ParseState}
  {key : ProductionAt} {outcome : Remembered}

/-- A parse stands at the start with nothing matched or missed. -/
theorem stands_start : Stands 0 {} where
  onward := nofun
  keepsUp := .inr ⟨nofun, nofun⟩

/-- A state keeps up with every offset between the one where it does and what was missed
furthest. -/
theorem KeepsUp.mono (keepsUp : KeepsUp state offset)
    (le : offset ≤ max state.progress.furthest stop) : KeepsUp state stop where
  matched := by
    intro token start last mem
    have := keepsUp.matched token start last mem
    omega
  missed := keepsUp.missed

/-- A walk may begin again where it has failed. -/
theorem Fails.stands (fails : Fails offset state) : Stands offset state where
  onward := fails.onward
  keepsUp := fails.missed.imp_right And.left

/-- To fail further on is to fail here. -/
theorem Fails.back (fails : Fails stop state) (le : offset ≤ stop) : Fails offset state where
  onward := fails.onward
  missed := fails.missed.imp_right fun ⟨keepsUp, missed⟩ =>
    ⟨keepsUp.mono (Nat.le_trans missed (Nat.le_max_left _ _)), Nat.le_trans le missed⟩

/-- Nothing that counts is different in another state. -/
structure Unmoved (state state' : ParseState) : Prop where
  matched : ∀ token start stop, .tokenMatched token start stop ∈ state'.events →
    .tokenMatched token start stop ∈ state.events
  refused : HasRefused state → HasRefused state'
  furthest : state'.progress.furthest = state.progress.furthest
  memo : state'.progress.memo = state.progress.memo

/-- What remembers the same remembers nothing that goes back. -/
theorem Unmoved.onward (unmoved : Unmoved state state') (onward : Onward state) :
    Onward state' := by
  unfold Onward
  rw [unmoved.memo]
  exact onward

/-- What has matched and missed nothing more keeps up with the same offset. -/
theorem Unmoved.keepsUp (unmoved : Unmoved state state') (keepsUp : KeepsUp state offset) :
    KeepsUp state' offset where
  matched := by
    intro token start stop mem
    rw [unmoved.furthest]
    exact keepsUp.matched token start stop (unmoved.matched token start stop mem)
  missed := by
    rw [unmoved.furthest, unmoved.memo]
    exact keepsUp.missed

theorem Stands.of_unmoved (stands : Stands offset state) (unmoved : Unmoved state state') :
    Stands offset state' where
  onward := unmoved.onward stands.onward
  keepsUp := stands.keepsUp.imp unmoved.refused unmoved.keepsUp

theorem Fails.of_unmoved (fails : Fails offset state) (unmoved : Unmoved state state') :
    Fails offset state' where
  onward := unmoved.onward fails.onward
  missed := fails.missed.imp unmoved.refused fun ⟨keepsUp, missed⟩ =>
    ⟨unmoved.keepsUp keepsUp, unmoved.furthest ▸ missed⟩

/-- Another report doesn't take a refusal back. -/
theorem HasRefused.report {event : ParseEvent} (refused : HasRefused state) :
    HasRefused (state.report event) := by
  obtain ⟨name, offset, mem⟩ := refused
  exact ⟨name, offset, List.mem_cons_of_mem event mem⟩

/-- To report anything but a token that has matched moves nothing. -/
theorem unmoved_report {event : ParseEvent}
    (other : ∀ token start stop, event ≠ .tokenMatched token start stop) :
    Unmoved state (state.report event) where
  matched := by
    intro token start stop mem
    rcases List.mem_cons.mp mem with same | old
    · exact absurd same.symm (other token start stop)
    · exact old
  refused := HasRefused.report
  furthest := rfl
  memo := rfl

theorem unmoved_enter : Unmoved state (state.update (·.enter key)) :=
  ⟨fun _ _ _ mem => mem, id, rfl, rfl⟩

theorem unmoved_exit : Unmoved state (state.update (·.exit key)) :=
  ⟨fun _ _ _ mem => mem, id, rfl, rfl⟩

/-- One stands where a token has matched. -/
theorem Stands.matched (stands : Stands offset state) (le : offset ≤ stop) (name : String)
    (start : Nat) : Stands stop (state.report (.tokenMatched name start stop)) where
  onward := stands.onward
  keepsUp := by
    refine stands.keepsUp.imp HasRefused.report fun keepsUp => ⟨?_, keepsUp.missed⟩
    intro token first last mem
    rcases List.mem_cons.mp mem with same | old
    · cases same
      exact Nat.le_max_right _ _
    · exact (keepsUp.mono (Nat.le_trans le (Nat.le_max_right _ _))).matched token first last old

/-- To miss a token is to fail where it was looked for. -/
theorem Stands.missed {start : Nat} (stands : Stands offset state) (le : offset ≤ start)
    (name : String) :
    Fails offset ((state.report (.tokenFailed name start)).update (·.expect name start)) := by
  have reported : Stands offset (state.report (.tokenFailed name start)) :=
    stands.of_unmoved (unmoved_report nofun)
  have furthest := (state.report (.tokenFailed name start)).progress.furthest_expect name start
  constructor
  · unfold Onward
    rw [ParseState.progress_update, Progress.memo_expect]
    exact reported.onward
  · refine reported.keepsUp.imp id fun keepsUp => ⟨⟨?_, ?_⟩, ?_⟩
    · intro token first last mem
      have := keepsUp.matched token first last mem
      rw [ParseState.progress_update, furthest]
      omega
    · intro key mem
      rw [ParseState.progress_update, Progress.memo_expect] at mem
      have := keepsUp.missed key mem
      rw [ParseState.progress_update, furthest]
      omega
    · rw [ParseState.progress_update, furthest]
      omega

/-- Where a production is refused, nothing is asked of what has matched. -/
theorem Stands.refused (stands : Stands offset state) (name : String) :
    Fails offset ((state.report (.refused name offset)).update (·.refuse)) where
  onward := stands.onward
  missed := .inl ⟨name, offset, List.mem_cons_self⟩

/-- To remember a match that doesn't go back leaves all that is remembered so. -/
theorem Onward.remember (onward : Onward state)
    (le : ∀ stop tree, outcome = some (stop, tree) → key.offset ≤ stop) :
    Onward (state.update (·.remember key outcome)) := by
  intro other stop tree mem
  rcases Progress.mem_memo_remember.mp mem with new | ⟨old, _⟩
  · cases new
    exact le stop tree rfl
  · exact onward other stop tree old

/-- To remember a failure asks for a token that was missed since it began. -/
theorem KeepsUp.remember (keepsUp : KeepsUp state offset)
    (missed : outcome = none → key.offset ≤ state.progress.furthest) :
    KeepsUp (state.update (·.remember key outcome)) offset where
  matched := keepsUp.matched
  missed := by
    intro other mem
    rcases Progress.mem_memo_remember.mp mem with new | ⟨old, _⟩
    · cases new
      exact missed rfl
    · exact keepsUp.missed other old

/-- To remember a match is of no account to where a walk stands. -/
theorem Stands.remember {tree : ParseTree} (stands : Stands stop state) (le : key.offset ≤ stop) :
    Stands stop (state.update (·.remember key (some (stop, tree)))) where
  onward := stands.onward.remember fun _ _ same => by
    cases same
    exact le
  keepsUp := stands.keepsUp.imp id fun keepsUp => keepsUp.remember nofun

/-- To remember a failure is of no account to a walk that has failed. -/
theorem Fails.remember (fails : Fails key.offset state) :
    Fails key.offset (state.update (·.remember key none)) where
  onward := fails.onward.remember nofun
  missed := fails.missed.imp id fun ⟨keepsUp, missed⟩ =>
    ⟨keepsUp.remember fun _ => missed, missed⟩

end States

/-! ### The walks of a parse -/

section Walks

open Assertion

variable {grammar : Grammar} {text : Text} {name : String} {offset : Nat} {trace : Trace}
  {state : ParseState}

/-- A token doesn't start before it is looked for. -/
theorem le_of_tokenStart? {start : Nat} (starts : grammar.tokenStart? text offset = some start) :
    offset ≤ start := by
  unfold tokenStart? at starts
  split at starts
  · exact Text.le_of_skipWhitespace?_eq_some starts
  · cases starts
    exact Nat.le_refl _

/-- A token that matches moves the walk to its end, and one that fails is missed where it
was to start. -/
theorem matchToken_upheld {pattern : Pattern} (stands : Stands offset state) :
    progressing.Upheld offset (grammar.matchToken text name pattern offset trace state) := by
  unfold matchToken
  split
  · exact upheld_of_aborted (by simp) (by simp)
  · rename_i start starts
    have le := le_of_tokenStart? starts
    split
    · exact upheld_of_failed rfl (stands.missed le name)
    · rename_i m matched
      obtain ⟨_, _, _, le'⟩ := Pattern.extent_of_matchAt? (Option.filter_eq_some_iff.mp matched).1
      have forth := Nat.le_trans le le'
      split
      · exact upheld_of_aborted (by simp) (by simp)
      · exact upheld_of_reached rfl forth (stands.matched forth name start)

/-- What is remembered of a production is as good as to match it again. -/
theorem recalled_upheld {outcome : Remembered} (stands : Stands offset state)
    (remembered : grammar.remembered? ⟨name, offset⟩ state.progress = some outcome) :
    progressing.Upheld offset
      (concludeProduction outcome trace (state.report (.recalled name offset))) := by
  have mem := mem_memo_of_remembered? remembered
  have unmoved : Unmoved state (state.report (.recalled name offset)) := unmoved_report nofun
  cases outcome with
  | some result =>
      obtain ⟨stop, tree⟩ := result
      have le : offset ≤ stop := stands.onward _ stop tree mem
      refine upheld_of_reached rfl le ?_
      refine Stands.of_unmoved ⟨stands.onward, ?_⟩ unmoved
      exact stands.keepsUp.imp_right fun keepsUp =>
        keepsUp.mono (Nat.le_trans le (Nat.le_max_right _ _))
  | none =>
      refine upheld_of_failed rfl (Fails.of_unmoved ⟨stands.onward, ?_⟩ unmoved)
      exact stands.keepsUp.imp_right fun keepsUp => ⟨keepsUp, keepsUp.missed _ mem⟩

/-- A production that has matched leaves the walk where its expression ended. -/
theorem leaveProduction_matched {key : ProductionAt} {stop refusalsBefore : Nat} {tree : ParseTree}
    (stands : Stands stop state) (le : key.offset ≤ stop) :
    progressing.Upheld key.offset
      (grammar.leaveProduction key refusalsBefore (some (stop, tree)) trace state) := by
  have left : Stands stop (state.report (.left key.production key.offset (some tree))) :=
    stands.of_unmoved (unmoved_report nofun)
  refine upheld_of_reached rfl le ?_
  unfold leaveProduction
  rw [state_concludeProduction]
  split
  · exact left.remember le
  · exact left

/-- A production that has failed has missed a token where it began or further on. -/
theorem leaveProduction_failed {key : ProductionAt} {refusalsBefore : Nat}
    (fails : Fails key.offset state) :
    progressing.Upheld key.offset
      (grammar.leaveProduction key refusalsBefore none trace state) := by
  have left : Fails key.offset (state.report (.left key.production key.offset none)) :=
    fails.of_unmoved (unmoved_report nofun)
  refine upheld_of_failed rfl ?_
  unfold leaveProduction
  rw [state_concludeProduction]
  split
  · exact left.remember
  · exact left

/-- A production upholds what the walk of its expression does. -/
theorem matchProduction_upheld {resolve : Resolver Error ParseState} {expression : Expression}
    (key : ProductionAt)
    (upheld : progressing.Upheld key.offset (expression.root.walk { text, resolve } key.offset {}
      (state.update (·.enter key)))) :
    progressing.Upheld key.offset
      (grammar.matchProduction text resolve expression key trace state) := by
  generalize walks : expression.root.walk { text, resolve } key.offset {}
    (state.update (·.enter key)) = walked at upheld
  unfold matchProduction
  simp only [walks]
  split
  · rename_i stop ends
    obtain ⟨le, stands⟩ := upheld.reached stop ends
    exact leaveProduction_matched (stands.of_unmoved unmoved_exit) le
  · rename_i ends
    exact leaveProduction_failed ((upheld.failed ends).of_unmoved unmoved_exit)
  · exact upheld_of_aborted (by simp) (by simp)
  · exact upheld_of_aborted (by simp) (by simp)

/-- The walks of a parse fail only where a token is missed, unless a production is
refused. -/
theorem progressing_lawful
    (defers : ∀ name expression, grammar.production? name = some expression →
      ∀ node ∈ expression.root.visit, node.Defers) (text : Text) (room : Nat) :
    progressing.Lawful { text, resolve := grammar.resolveWithin text room } := by
  -- What is captured doesn't count, and no node is met that tests a character; so only
  -- the references are left. A production that is entered has less room.
  induction room using Nat.strongRecOn with
  | ind room ih =>
      refine ⟨fun le fails => fails.back le, fun _ fails => fails.stands, fun _ after => after,
        fun _ _ _ _ stands => stands, fun defers alone _ _ => absurd defers.kind alone,
        fun defers alone => absurd defers alone, ?_, grammar.resolveWithin_tidy text room⟩
      intro node name offset trace state _ _ stands
      have resolution := grammar.resolution text room name offset trace state
      simp only
      generalize grammar.resolveWithin text room name offset trace state = walked
        at resolution ⊢
      cases resolution with
      | token _ => exact matchToken_upheld stands
      | unknown _ _ => exact upheld_of_aborted (by simp) (by simp)
      | recalled _ _ remembered => exact recalled_upheld stands remembered
      | limited _ _ _ => exact upheld_of_aborted (by simp) (by simp)
      | refused _ _ _ _ => exact upheld_of_failed rfl (Stands.refused stands name)
      | @entered room expression _ found _ _ =>
          apply matchProduction_upheld ⟨name, offset⟩
          exact expression.root.walk_upheld (ih room (Nat.lt_succ_self room))
            (defers name expression found) offset {} _ (Stands.of_unmoved stands unmoved_enter)

/-- A whole parse keeps up with where it stands, and has missed a token where it fails. -/
theorem walkStart_upheld
    (defers : ∀ name expression, grammar.production? name = some expression →
      ∀ node ∈ expression.root.visit, node.Defers) (text : Text) :
    progressing.Upheld 0 (grammar.walkStart text) := by
  have once : (Node.one (.reference grammar.start)).Defers := by
    refine ⟨trivial, ?_⟩
    rintro max ⟨⟩
    exact Nat.le_refl 1
  rw [walkStart_eq]
  exact (progressing_lawful defers text _).reference once rfl stands_start

/-- No set in the expressions of the grammar is negated, and there is something in
each. -/
def Deferring (grammar : Grammar) : Prop :=
  ∀ production ∈ grammar.productions, ∀ node ∈ production.2.root.visit, node.kind.Defers

instance (grammar : Grammar) : Decidable grammar.Deferring :=
  inferInstanceAs (Decidable (∀ production ∈ grammar.productions,
    ∀ node ∈ production.2.root.visit, node.kind.Defers))

end Walks

end Grammar

namespace Definition

variable {definition : Definition} {grammar : Grammar}

/-- The nodes of compiled expressions fail only where something in them does, if that
is true of their sets. -/
theorem defers_of_compile_eq_ok (compiled : definition.compile = .ok grammar)
    (deferring : grammar.Deferring) {name : String} {expression : Expression}
    (found : grammar.production? name = some expression) :
    ∀ node ∈ expression.root.visit, node.Defers := by
  intro node mem
  obtain ⟨_, _, _, ofSource, _⟩ := exists_rule_of_production? compiled found
  exact ⟨deferring (name, expression) (mem_of_lookup_eq_some found) node mem,
    (Expression.nodes_of_compile_eq_ok ofSource node mem).2⟩

/-- Where a parse fails, no token has matched beyond the offset that is told, as long
as there are no negated and no empty sets and no production is refused. -/
theorem stop_le_of_parseError (compiled : definition.compile = .ok grammar)
    (deferring : grammar.Deferring) {text : Text}
    (unrefused : ∀ name offset, .refused name offset ∉ (grammar.run text).events)
    {expected : List String} {offset : Nat}
    (parsed : grammar.parse text = .error (.parseError expected offset))
    {earlier : List ParseEvent} {token : String} {start stop : Nat}
    (attempts : grammar.Attempts text earlier (.tokenMatched token start stop)) :
    stop ≤ offset := by
  have closed := closed_of_compile_eq_ok compiled
  have upheld := Grammar.walkStart_upheld
    (fun name expression => defers_of_compile_eq_ok compiled deferring) text
  have mem : .tokenMatched token start stop ∈ (grammar.walkStart text).state.events :=
    (attempts.suffix closed).subset List.mem_cons_self
  have none : ¬ Grammar.HasRefused (grammar.walkStart text).state := by
    rintro ⟨name, offset, mem⟩
    exact unrefused name offset (List.mem_reverse.mpr mem)
  -- If the start production fails, a token was missed at 0 or further on. If it stops short,
  -- it stands where it stops, and the end of the input is missed there.
  rcases Grammar.ends_of_parse_eq_error closed parsed with
    ⟨failed, same⟩ | ⟨last, stopped, reached, le, _, _, same⟩
  · obtain ⟨keepsUp, _⟩ := (upheld.failed failed).missed.resolve_left none
    have := keepsUp.matched token start stop mem
    cases same
    omega
  · have keepsUp := (upheld.reached last reached).2.keepsUp.resolve_left none
    have := keepsUp.matched token start stop mem
    have furthest := (grammar.walkStart text).state.progress.furthest_expect "end of input" stopped
    cases same
    omega

/-- Lists of pairs of words and numbers, whatever comes first. -/
def pairLists : Definition where
  start := "list"
  tokens := [⟨"word", "[a-z]+"⟩, ⟨"number", "[0-9]+"⟩, ⟨"comma", ","⟩]
  productions := [⟨"list", "pair (comma pair)*"⟩, ⟨"pair", "[word number]\x7b2\x7d"⟩]
  options := { memoize := true }

/-- Whether an event tells that a production was refused. -/
def isRefusal : ParseEvent → Bool
  | .refused _ _ => true
  | _ => false

/-- Of the third pair only a word is there. So the list ends behind the second pair, but
what is told is what was missed behind the word. -/
theorem pairLists_stop_le :
    ∃ grammar, pairLists.compile = .ok grammar ∧
      grammar.parse "a 1, 2b, c".toList = .error (.parseError ["word", "number"] 10) ∧
      ∀ earlier token start stop,
        grammar.Attempts "a 1, 2b, c".toList earlier (.tokenMatched token start stop) →
          stop ≤ 10 := by
  obtain ⟨grammar, compiled, parsed⟩ := exists_of_stopsWith
    (show pairLists.stopsWith "a 1, 2b, c".toList (.parseError ["word", "number"] 10) = true by
      decide +kernel)
  have tested := passes_of_compilesTo (show pairLists.compilesTo (fun grammar =>
    decide (grammar.Deferring ∧
      (grammar.run "a 1, 2b, c".toList).events.any isRefusal = false)) = true by decide +kernel)
    compiled
  obtain ⟨deferring, unrefused⟩ := of_decide_eq_true tested
  refine ⟨grammar, compiled, parsed, fun earlier token start stop attempts => ?_⟩
  refine stop_le_of_parseError compiled deferring ?_ parsed attempts
  intro name offset mem
  exact absurd rfl (List.any_eq_false.mp unrefused _ mem)

/-- A word, and behind it something that isn't a mark. -/
def unmarked : Definition where
  start := "pair"
  tokens := [⟨"word", "[a-z]+"⟩, ⟨"mark", "!"⟩]
  productions := [⟨"pair", "word [^mark]"⟩]

/-- What an event tells of a token that has matched. -/
def matched? : ParseEvent → Option (String × Nat × Nat)
  | .tokenMatched token start stop => some (token, start, stop)
  | _ => none

/-- There is a mark behind the word. Both have matched, but what is told is that nothing
was reached beyond the start, where nothing is missed. -/
theorem unmarked_beyond_parseError :
    ∃ grammar, unmarked.compile = .ok grammar ∧
      grammar.parse "ab!".toList = .error (.parseError [] 0) ∧
      ∃ earlier, grammar.Attempts "ab!".toList earlier (.tokenMatched "mark" 2 3) := by
  obtain ⟨grammar, compiled, parsed⟩ := exists_of_stopsWith
    (show unmarked.stopsWith "ab!".toList (.parseError [] 0) = true by decide +kernel)
  have tested := passes_of_compilesTo (show unmarked.compilesTo (fun grammar =>
    (grammar.run "ab!".toList).events.any fun event =>
      matched? event == some ("mark", 2, 3)) = true by decide +kernel) compiled
  obtain ⟨event, mem, same⟩ := List.any_eq_true.mp tested
  have isMark := eq_of_beq same
  unfold matched? at isMark
  split at isMark
  · cases isMark
    exact ⟨grammar, compiled, parsed,
      Grammar.exists_attempts_of_mem (closed_of_compile_eq_ok compiled) trivial mem⟩
  · cases isMark

end Definition

end TextGrammar
