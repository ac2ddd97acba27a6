import Mathlib.Data.List.Forall2
import TextGrammar.Grammar.Lazy
import TextGrammar.Proofs.Checked
import TextGrammar.Proofs.Expression.Rewriting
import TextGrammar.Proofs.Parse.Reachable
import TextGrammar.Proofs.Walk.Recording

/-!
Grammars that are written with or without sugar.

A production may be written with groups around nodes that stand one after another, and
with sets or with groups that list their names: that is the same to every parse
(`Definition.parse_eq_of_rewritten`), as references of a parse don't look at what has been
recorded and record nothing where they fail. Sugar shows where references that fail leave a
record, and in the errors of expressions that can't be compiled (`sugar_not_transparent`).
-/

namespace TextGrammar

section Replies

variable {ε σ : Type} {setting : Setting ε σ}

theorem Setting.Replies.oblivious (replies : setting.Replies) : setting.Oblivious := by
  intro name offset state
  obtain ⟨emitted, _, same⟩ := replies name offset state
  exact ⟨emitted, same⟩

theorem Setting.Replies.tidy (replies : setting.Replies) : setting.Tidy :=
  replies.appends.1

end Replies

/-- The second rule is the first one with its expression rewritten. -/
def Rule.Rewritten (rule rule' : Rule) : Prop :=
  rule'.name = rule.name ∧ Expression.Rewritten rule.expression rule'.expression

namespace Definition

/-- The second definition is the first one with the expressions of its productions
rewritten. -/
structure Rewritten (definition definition' : Definition) : Prop where
  start : definition'.start = definition.start
  tokens : definition'.tokens = definition.tokens
  options : definition'.options = definition.options
  productions : List.Forall₂ Rule.Rewritten definition.productions definition'.productions

/-- A member of the first list has its counterpart in the second one. -/
theorem exists_of_mem_forall₂ {R : Rule → Rule → Prop} {rules rules' : List Rule}
    (related : List.Forall₂ R rules rules') {rule : Rule} (mem : rule ∈ rules) :
    ∃ rule' ∈ rules', R rule rule' := by
  induction related with
  | nil => simp at mem
  | cons head _ ih =>
      rcases List.mem_cons.mp mem with rfl | later
      · exact ⟨_, List.mem_cons_self, head⟩
      · obtain ⟨rule', mem', same⟩ := ih later
        exact ⟨rule', List.mem_cons_of_mem _ mem', same⟩

variable {definition definition' : Definition} {grammar grammar' : Grammar}

namespace Rewritten

theorem names_eq (rewritten : definition.Rewritten definition') :
    definition'.names = definition.names := by
  have same : List.Forall₂ Eq (definition.productions.map Rule.name)
      (definition'.productions.map Rule.name) := by
    rw [List.forall₂_map_left_iff, List.forall₂_map_right_iff]
    exact rewritten.productions.imp fun rule rule' both => both.1.symm
  rw [List.forall₂_eq_eq_eq] at same
  rw [names, names, List.map_append, List.map_append, rewritten.tokens, same]

theorem exists_rule (rewritten : definition.Rewritten definition') {rule : Rule}
    (mem : rule ∈ definition.productions) :
    ∃ rule' ∈ definition'.productions, rule.Rewritten rule' :=
  exists_of_mem_forall₂ rewritten.productions mem

theorem exists_rule_before (rewritten : definition.Rewritten definition') {rule' : Rule}
    (mem : rule' ∈ definition'.productions) :
    ∃ rule ∈ definition.productions, rule.Rewritten rule' :=
  exists_of_mem_forall₂ (R := flip Rule.Rewritten) rewritten.productions.flip mem

/-- What is rewritten can be read as before, and has the same names. -/
theorem closed (rewritten : definition.Rewritten definition') (closed : definition.Closed) :
    definition'.Closed where
  patterns := rewritten.tokens ▸ closed.patterns
  distinct := rewritten.names_eq ▸ closed.distinct
  expressions := by
    intro rule' mem'
    obtain ⟨rule, mem, _, sources⟩ := rewritten.exists_rule_before mem'
    obtain ⟨expression, ofSource, known⟩ := closed.expressions rule mem
    obtain ⟨expression', ofSource', refers, _⟩ :=
      Expression.exists_compile_of_rewritten ofSource sources
    refine ⟨expression', ofSource', fun name mentions => ?_⟩
    have mem : name ∈ expression'.references := Sequence.mem_references_iff.mpr mentions
    rw [refers] at mem
    rw [rewritten.names_eq]
    exact known name (Sequence.mem_references_iff.mp mem)
  start := by
    obtain ⟨rule, mem, named⟩ := closed.start
    obtain ⟨rule', mem', same, _⟩ := rewritten.exists_rule mem
    exact ⟨rule', mem', by rw [same, named, rewritten.start]⟩

variable (rewritten : definition.Rewritten definition')
  (compiled : definition.compile = .ok grammar) (compiled' : definition'.compile = .ok grammar')
include rewritten compiled compiled'

theorem token?_eq (name : String) : grammar'.token? name = grammar.token? name := by
  obtain ⟨ofTokens, _⟩ := compile_eq_ok_iff.mp compiled
  obtain ⟨ofTokens', _⟩ := compile_eq_ok_iff.mp compiled'
  rw [rewritten.tokens, ofTokens] at ofTokens'
  rw [Grammar.token?, Grammar.token?, Except.ok.inj ofTokens']

/-- The grammars are akin on all names. -/
theorem akin : grammar.Akin grammar.Declares grammar' := by
  obtain ⟨_, _, _, _, start, options⟩ := compile_eq_ok_iff.mp compiled
  obtain ⟨_, _, _, _, start', options'⟩ := compile_eq_ok_iff.mp compiled'
  have closed := closed_of_compile_eq_ok compiled
  exact {
    closed := closed
    closed' := closed_of_compile_eq_ok compiled'
    options := by rw [options, options', rewritten.options]
    start := by rw [start, start', rewritten.start]
    named := .inr closed.start
    declares := id
    token := fun {name} _ => rewritten.token?_eq compiled compiled' name }

/-- The expression of a production is walked as before. -/
theorem production? {name : String} {expression : Expression}
    (found : grammar.production? name = some expression) :
    ∃ expression', grammar'.production? name = some expression' ∧
      ∀ {ε σ : Type} {setting : Setting ε σ}, setting.Oblivious → setting.Tidy →
        ∀ offset trace state, (expression.root.walk setting offset trace state).Resembles
          (expression'.root.walk setting offset trace state) := by
  obtain ⟨rule, mem, rfl, ofSource, _⟩ := exists_rule_of_production? compiled found
  obtain ⟨rule', mem', named, sources⟩ := rewritten.exists_rule mem
  obtain ⟨expression', ofSource', _, walks⟩ :=
    Expression.exists_compile_of_rewritten ofSource sources
  exact ⟨expression', named ▸ production?_of_mem compiled' mem' ofSource', walks⟩

end Rewritten

/-- A definition whose productions are rewritten compiles if it did before, and comes to
the same verdict on every text. -/
theorem parse_eq_of_rewritten (compiled : definition.compile = .ok grammar)
    (rewritten : definition.Rewritten definition') :
    ∃ grammar', definition'.compile = .ok grammar' ∧
      ∀ text, grammar'.parse text = grammar.parse text := by
  obtain ⟨grammar', compiled'⟩ :=
    exists_compile_iff.mpr (rewritten.closed (exists_compile_iff.mp ⟨grammar, compiled⟩))
  refine ⟨grammar', compiled', fun text => ?_⟩
  obtain ⟨_, _, _, _, _, options⟩ := compile_eq_ok_iff.mp compiled
  obtain ⟨_, _, _, _, _, options'⟩ := compile_eq_ok_iff.mp compiled'
  have limit : grammar'.options.recursionLimit = grammar.options.recursionLimit := by
    rw [options, options', rewritten.options]
  refine (rewritten.akin compiled compiled').parse_eq_of_resembles ?_ ?_ (by omega)
    (fun less => absurd less (by omega))
  · intro name expression _ found
    obtain ⟨expression', found', walks⟩ := rewritten.production? compiled compiled' found
    refine ⟨expression', found', fun room offset state => ?_⟩
    have replies := grammar'.replies_resolveWithin text room
    exact walks replies.oblivious replies.tidy offset {} state
  · intro name expression _ found
    exact (closed_of_compile_eq_ok compiled).declared found

end Definition

/-- Groups and sets are sugar.

References of a parse only add to the trace, without a look at it, and as what fails is to
leave no record they add nothing where they fail. Wherever references only add to the trace
without a look at it, nodes in the middle of a sequence may be put in a group that is
matched once: the same references are asked for in the same order, the walk ends alike with
the same trees, and a capture of the group is all that is added. The items of a set may be
spelled out as the alternatives of a group under the same quantifier: again the same
references are asked for in the same order and the walk ends alike; and where references
that fail leave no record, the trees are the same, too, and a capture of the group is all
that is added. So it is the same to a parse whether the expressions of productions are
written one way or the other.

The references that are asked for are read off a walk that keeps account of them, which is
otherwise the walk itself. -/
theorem sugar_transparent :
    (∀ (grammar : Grammar) text, Setting.Oblivious { text, resolve := grammar.resolve text } ∧
      Setting.Tidy { text, resolve := grammar.resolve text }) ∧
    (∀ {ε σ : Type} (setting : Setting ε σ) offset trace state,
      (∀ sequence : Sequence,
        (sequence.walk setting.recording offset trace (state, [])).mapState Prod.fst =
          sequence.walk setting offset trace state) ∧
      ∀ node : Node, (node.walk setting.recording offset trace (state, [])).mapState Prod.fst =
        node.walk setting offset trace state) ∧
    (∀ {ε σ : Type} (setting : Setting ε σ), setting.Oblivious →
      (∀ number front nodes back alternate offset trace state,
        let plain := Sequence.ofNodes (front ++ nodes ++ back) alternate
        let grouped :=
          Sequence.ofNodes (front ++ .one (.group number (.only nodes)) :: back) alternate
        (plain.walk setting offset trace state).CapturesMore number
            (grouped.walk setting offset trace state) ∧
          grouped.calls setting offset trace state = plain.calls setting offset trace state) ∧
      ∀ number first others quantifier,
        (∀ item ∈ first :: others, item.IsPlain) → ∀ offset trace state,
          let set : Node := ⟨.set (first :: others) false, quantifier⟩
          let group : Node := ⟨.group number (.choice first others), quantifier⟩
          (group.walk setting offset trace state).outcome =
              (set.walk setting offset trace state).outcome ∧
            (group.walk setting offset trace state).state =
              (set.walk setting offset trace state).state ∧
            group.calls setting offset trace state = set.calls setting offset trace state ∧
            (setting.Tidy → (set.walk setting offset trace state).CapturesMore number
              (group.walk setting offset trace state))) ∧
    ∀ {definition definition' : Definition} {grammar : Grammar},
      definition.compile = .ok grammar → definition.Rewritten definition' →
        ∃ grammar', definition'.compile = .ok grammar' ∧
          ∀ text, grammar'.parse text = grammar.parse text := by
  refine ⟨?_, ?_, ?_, Definition.parse_eq_of_rewritten⟩
  · intro grammar text
    have replies := grammar.replies_resolve text
    exact ⟨replies.oblivious, replies.tidy⟩
  · intro ε σ setting offset trace state
    exact ⟨fun sequence => sequence.walk_recording setting offset trace state [],
      fun node => node.walk_recording setting offset trace state []⟩
  · intro ε σ setting oblivious
    constructor
    · intro number front nodes back alternate offset trace state plain grouped
      have recorded := Sequence.walk_grouped oblivious.recording number front nodes back alternate
        offset trace (state, [])
      exact ⟨Sequence.walk_grouped oblivious number front nodes back alternate offset trace state,
        congrArg Prod.snd recorded.state⟩
    · intro number first others quantifier items offset trace state set group
      have ends := Node.walk_spelledOut_ends oblivious number items quantifier offset trace state
      have recorded := Node.walk_spelledOut_ends oblivious.recording number items quantifier offset
        trace (state, [])
      exact ⟨ends.outcome, ends.state, congrArg Prod.snd recorded.state, fun tidy =>
        Node.walk_spelledOut oblivious tidy number items quantifier offset trace state⟩

/-- Letters in pairs or alone. -/
def letters : Definition where
  start := "letters"
  tokens := [⟨"A", "a"⟩, ⟨"B", "b"⟩]
  productions := [⟨"letters", "A B [A B]*"⟩]

/-- The same, with a group for the pair and alternatives in place of the set. -/
def lettersSpelledOut : Definition :=
  { letters with productions := [⟨"letters", "(A B) (A | B)*"⟩] }

theorem letters_rewritten : letters.Rewritten lettersSpelledOut :=
  ⟨rfl, rfl, rfl, .cons ⟨rfl, Expression.rewritten_unsugared⟩ .nil⟩

/-- In the dictionary of two letters `A` and `B`, with a group in the middle of a sequence
and with a set of both spelled out, and in a grammar of such letters. -/
theorem letters_transparent :
    let setting : Setting String (List Call) :=
      { text := "abba".toList
        resolve := Dictionary.resolve [("A", some ['a']), ("B", some ['b'])] "abba".toList }
    let a : Node := .one (.reference "A")
    let b : Node := .one (.reference "B")
    let plain : Sequence := .ofNodes ([a] ++ [b, b] ++ [a]) none
    let grouped : Sequence := .ofNodes ([a] ++ .one (.group 1 (.only [b, b])) :: [a]) none
    let set : Node := ⟨.set [a, b] false, some .zeroOrMore⟩
    let group : Node := ⟨.group 1 (.choice a [b]), some .zeroOrMore⟩
    setting.Oblivious ∧ setting.Tidy ∧
      (plain.walk setting 0 {} []).CapturesMore 1 (grouped.walk setting 0 {} []) ∧
      (grouped.walk setting 0 {} []).trace.captures = [⟨1, 1, 3⟩] ∧
      grouped.calls setting 0 {} [] = plain.calls setting 0 {} [] ∧
      plain.calls setting 0 {} [] = [⟨"A", 0⟩, ⟨"B", 1⟩, ⟨"B", 2⟩, ⟨"A", 3⟩] ∧
      (set.walk setting 0 {} []).CapturesMore 1 (group.walk setting 0 {} []) ∧
      (group.walk setting 0 {} []).trace.captures = [⟨1, 0, 4⟩] ∧
      group.calls setting 0 {} [] = set.calls setting 0 {} [] ∧
      set.calls setting 0 {} [] = [⟨"A", 0⟩, ⟨"A", 1⟩, ⟨"B", 1⟩, ⟨"A", 2⟩, ⟨"B", 2⟩, ⟨"A", 3⟩,
        ⟨"A", 4⟩, ⟨"B", 4⟩] ∧
      letters.Rewritten lettersSpelledOut ∧
      ∃ grammar grammar' tree, letters.compile = .ok grammar ∧
        lettersSpelledOut.compile = .ok grammar' ∧
        grammar.parse "abba".toList = .tree tree ∧ grammar'.parse "abba".toList = .tree tree := by
  intro setting a b plain grouped set group
  have replies : setting.Replies := Dictionary.replies_resolve _ _
  have oblivious := replies.oblivious
  obtain ⟨groups, sets⟩ := sugar_transparent.2.2.1 setting oblivious
  have inMiddle := groups 1 [a] [b, b] [a] none 0 {} []
  have items : ∀ item ∈ [a, b], item.IsPlain :=
    List.forall_mem_cons.mpr ⟨⟨rfl, rfl⟩, List.forall_mem_singleton.mpr ⟨rfl, rfl⟩⟩
  obtain ⟨_, _, calls, more⟩ := sets 1 a [b] (some .zeroOrMore) items 0 {} []
  obtain ⟨grammar, tree, compiled, parsed, _⟩ := Definition.exists_of_yields letters "abba".toList
    (show Definition.yields _ _ (fun _ tree => tree.label == "letters") = true by decide +kernel)
  obtain ⟨grammar', compiled', same⟩ := sugar_transparent.2.2.2 compiled letters_rewritten
  exact ⟨oblivious, replies.tidy, inMiddle.1, by decide +kernel, inMiddle.2, by decide +kernel,
    more replies.tidy, by decide +kernel, calls, by decide +kernel, letters_rewritten, grammar,
    grammar', tree, compiled, compiled', parsed, (same _).trans parsed⟩

/-- Every name leaves a tree and goes on by one byte, but `A` leaves its tree and fails. -/
def careless : Resolver Empty Unit := fun name offset trace state =>
  ⟨if name = "A" then .failed else .reached (offset + 1), trace.addTree (.leaf name "" offset),
    state⟩

/-- Letters that can't be compiled: `B` is asked for twice at least and once at most. -/
def reversed : Definition :=
  { letters with productions := [⟨"letters", "A B\x7b2,1\x7d"⟩] }

/-- The same, with a group for the two. -/
def reversedInGroup : Definition :=
  { letters with productions := [⟨"letters", "(A B\x7b2,1\x7d)"⟩] }

/-- A definition that can't be compiled comes to its error on every text. -/
theorem LazyGrammar.parse_of_error? {definition : Definition} {error : Error}
    (refused : error? definition.compile = some error) (text : Text) :
    (LazyGrammar.parse { definition } text).1 = .error error := by
  simp only [LazyGrammar.parse, LazyGrammar.force, error?_eq_some_iff.mp refused]

theorem reversed_rewritten : reversed.Rewritten reversedInGroup :=
  ⟨rfl, rfl, rfl, .cons ⟨rfl, Expression.rewritten_reversedInGroup⟩ .nil⟩

/-- Where sugar shows.

References that leave a tree where they fail are oblivious, but not tidy: a set goes on
with the tree that its first item has left, where the first alternative of a group takes it
back. So the trees of the two differ, though they end alike. And what can't be compiled is
reported as it is written: the error quotes the expression, and points into it. -/
theorem sugar_not_transparent :
    (let setting : Setting Empty Unit := { text := "b".toList, resolve := careless }
      let a : Node := .one (.reference "A")
      let b : Node := .one (.reference "B")
      let set : Node := .one (.set [a, b] false)
      let group : Node := .one (.group 1 (.choice a [b]))
      setting.Oblivious ∧ ¬ setting.Tidy ∧ (∀ item ∈ [a, b], item.IsPlain) ∧
        (set.walk setting 0 {} ()).outcome = .reached 1 ∧
        (group.walk setting 0 {} ()).outcome = .reached 1 ∧
        (set.walk setting 0 {} ()).trace.trees.map ParseTree.label = ["B", "A"] ∧
        (group.walk setting 0 {} ()).trace.trees.map ParseTree.label = ["B"] ∧
        ¬ (set.walk setting 0 {} ()).CapturesMore 1 (group.walk setting 0 {} ())) ∧
      reversed.Rewritten reversedInGroup ∧
      (LazyGrammar.parse { definition := reversed } "abb".toList).1 = .error
        (.invalidExpression "minimum 2 is greater than maximum 1" "A B\x7b2,1\x7d" 3) ∧
      (LazyGrammar.parse { definition := reversedInGroup } "abb".toList).1 = .error
        (.invalidExpression "minimum 2 is greater than maximum 1" "(A B\x7b2,1\x7d)" 4) := by
  refine ⟨?_, reversed_rewritten, ?_, ?_⟩
  · intro setting a b set group
    have oblivious : setting.Oblivious := fun name offset state =>
      ⟨⟨if name = "A" then .failed else .reached (offset + 1),
        { trees := [.leaf name "" offset] }, state⟩, fun _ => rfl⟩
    have untidy : ¬ setting.Tidy := by
      intro tidy
      have unchanged := congrArg (fun trace => trace.trees.length) (tidy "A" 0 {} () rfl)
      simp [setting, careless, Trace.addTree] at unchanged
    have items : ∀ item ∈ [a, b], item.IsPlain :=
      List.forall_mem_cons.mpr ⟨⟨rfl, rfl⟩, List.forall_mem_singleton.mpr ⟨rfl, rfl⟩⟩
    have ofSet : (set.walk setting 0 {} ()).trace.trees.map ParseTree.label = ["B", "A"] := by
      decide +kernel
    have ofGroup : (group.walk setting 0 {} ()).trace.trees.map ParseTree.label = ["B"] := by
      decide +kernel
    refine ⟨oblivious, untidy, items, by decide +kernel, by decide +kernel, ofSet, ofGroup, ?_⟩
    intro more
    rw [more.trace.1, ofSet] at ofGroup
    simp at ofGroup
  · exact LazyGrammar.parse_of_error? (by decide +kernel) _
  · exact LazyGrammar.parse_of_error? (by decide +kernel) _

end TextGrammar
