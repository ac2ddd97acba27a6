import Mathlib.Data.List.Nodup
import TextGrammar.Proofs.Grammar.Closed
import TextGrammar.Proofs.Parse.Agreement

/-!
Rules that the start doesn't reach.

A parse looks up names that the start refers to, directly or through other
productions, and no others. So definitions that declare these names alike parse
alike, whatever else they declare and in whatever order
(`Definition.parse_eq_of_reachable`).
-/

namespace TextGrammar

namespace Definition

/-- The name is the start, or a production that the start reaches refers to it. -/
inductive Reachable (definition : Definition) : String → Prop where
  | start : Reachable definition definition.start
  | reference {rule : Rule} {expression : Expression} {name : String} :
      Reachable definition rule.name → rule ∈ definition.productions →
      Expression.compile rule.expression = .ok expression → expression.root.Mentions name →
      Reachable definition name

/-- Whatever is reachable in the first definition is declared in the second one as
it is in the first one. -/
structure AgreesOnReachable (definition definition' : Definition) : Prop where
  start : definition'.start = definition.start
  options : definition'.options = definition.options
  tokens : ∀ rule ∈ definition.tokens, definition.Reachable rule.name →
    rule ∈ definition'.tokens
  productions : ∀ rule ∈ definition.productions, definition.Reachable rule.name →
    rule ∈ definition'.productions

variable {definition definition' : Definition} {grammar grammar' : Grammar} {name : String}

/-- The names have the start among them and, with a production, whatever it refers
to. -/
def keepsTo (definition : Definition) (names : List String) : Bool :=
  definition.start ∈ names && definition.productions.all fun rule =>
    rule.name ∉ names || match Expression.compile rule.expression with
      | .ok expression => expression.references.all (· ∈ names)
      | .error _ => true

/-- Such names have whatever is reachable among them. -/
theorem Reachable.mem_of_keepsTo {names : List String} (keeps : definition.keepsTo names = true)
    (reachable : definition.Reachable name) : name ∈ names := by
  unfold keepsTo at keeps
  simp only [Bool.and_eq_true, decide_eq_true_eq, List.all_eq_true, Bool.or_eq_true] at keeps
  obtain ⟨hasStart, inside⟩ := keeps
  induction reachable with
  | start => exact hasStart
  | reference _ mem ofSource mentions ih =>
      rcases inside _ mem with outside | known
      · exact absurd ih outside
      · rw [ofSource] at known
        exact of_decide_eq_true
          (List.all_eq_true.mp known _ (Sequence.mem_references_iff.mpr mentions))

/-! ### Rules and what they are compiled to -/

/-- No two rules have the same name. -/
theorem eq_of_name_eq (compiled : definition.compile = .ok grammar) {rule rule' : Rule}
    (mem : rule ∈ definition.tokens ++ definition.productions)
    (mem' : rule' ∈ definition.tokens ++ definition.productions)
    (same : rule.name = rule'.name) : rule = rule' :=
  List.inj_on_of_nodup_map (names_nodup compiled) mem mem' same

/-- A token stands for the pattern that its rule is compiled to. -/
theorem token?_of_mem (compiled : definition.compile = .ok grammar) {rule : Rule}
    {pattern : Pattern} (mem : rule ∈ definition.tokens)
    (ofSource : Pattern.compile rule.expression = .ok pattern) :
    grammar.token? rule.name = some pattern := by
  obtain ⟨other, found⟩ : ∃ other, grammar.token? rule.name = some other := by
    apply exists_lookup_of_mem
    rw [tokens_map_fst compiled]
    exact List.mem_map_of_mem mem
  obtain ⟨rule', mem', same, ofSource'⟩ := exists_rule_of_token? compiled found
  obtain rfl := eq_of_name_eq compiled (List.mem_append_left _ mem') (List.mem_append_left _ mem)
    same
  cases ofSource.symm.trans ofSource'
  exact found

/-- A production stands for the expression that its rule is compiled to. -/
theorem production?_of_mem (compiled : definition.compile = .ok grammar) {rule : Rule}
    {expression : Expression} (mem : rule ∈ definition.productions)
    (ofSource : Expression.compile rule.expression = .ok expression) :
    grammar.production? rule.name = some expression := by
  obtain ⟨other, found⟩ : ∃ other, grammar.production? rule.name = some other := by
    apply exists_lookup_of_mem
    rw [productions_map_fst compiled]
    exact List.mem_map_of_mem mem
  obtain ⟨rule', mem', same, ofSource', _⟩ := exists_rule_of_production? compiled found
  obtain rfl := eq_of_name_eq compiled (List.mem_append_right _ mem')
    (List.mem_append_right _ mem) same
  cases ofSource.symm.trans ofSource'
  exact found

/-! ### Reachable names -/

/-- Every reachable name stands for something. -/
theorem Reachable.declares (compiled : definition.compile = .ok grammar)
    (reachable : definition.Reachable name) : grammar.Declares name := by
  cases reachable with
  | start =>
      have closed := closed_of_compile_eq_ok compiled
      obtain ⟨_, _, _, _, isStart, _⟩ := compile_eq_ok_iff.mp compiled
      rw [← isStart]
      exact .inr closed.start
  | reference _ mem ofSource mentions =>
      obtain ⟨_, ofSource', known⟩ := (exists_compile_iff.mp ⟨grammar, compiled⟩).expressions _ mem
      cases ofSource.symm.trans ofSource'
      exact declares_of_mem_names compiled (known name mentions)

/-- What a reachable production refers to is reachable. -/
theorem Reachable.of_mem_visit (compiled : definition.compile = .ok grammar)
    {expression : Expression} (reachable : definition.Reachable name)
    (found : grammar.production? name = some expression) {node : Node}
    (inside : node ∈ expression.root.visit) {target : String}
    (refers : node.kind = .reference target) : definition.Reachable target := by
  obtain ⟨rule, mem, rfl, ofSource, _⟩ := exists_rule_of_production? compiled found
  exact .reference reachable mem ofSource (Sequence.mentions_of_mem_visit refers _ inside)

namespace AgreesOnReachable

variable (agrees : definition.AgreesOnReachable definition')
  (compiled : definition.compile = .ok grammar) (compiled' : definition'.compile = .ok grammar')
include agrees compiled compiled'

theorem production? {expression : Expression} (reachable : definition.Reachable name)
    (found : grammar.production? name = some expression) :
    grammar'.production? name = some expression := by
  obtain ⟨rule, mem, rfl, ofSource, _⟩ := exists_rule_of_production? compiled found
  exact production?_of_mem compiled' (agrees.productions rule mem reachable) ofSource

theorem token? (reachable : definition.Reachable name) :
    grammar'.token? name = grammar.token? name := by
  cases found : grammar.token? name with
  | some pattern =>
      obtain ⟨rule, mem, rfl, ofSource⟩ := exists_rule_of_token? compiled found
      exact token?_of_mem compiled' (agrees.tokens rule mem reachable) ofSource
  | none =>
      rcases reachable.declares compiled with ⟨pattern, isToken⟩ | ⟨expression, isProduction⟩
      · cases found.symm.trans isToken
      · exact (closed_of_compile_eq_ok compiled').apart
          (agrees.production? compiled compiled' reachable isProduction)

/-- The grammars are akin on what is reachable. -/
theorem akin : grammar.Akin definition.Reachable grammar' := by
  obtain ⟨_, _, _, _, start, options⟩ := compile_eq_ok_iff.mp compiled
  obtain ⟨_, _, _, _, start', options'⟩ := compile_eq_ok_iff.mp compiled'
  exact {
    closed := closed_of_compile_eq_ok compiled
    closed' := closed_of_compile_eq_ok compiled'
    options := by rw [options, options', agrees.options]
    start := by rw [start, start', agrees.start]
    named := by rw [start]; exact .start
    declares := fun reachable => reachable.declares compiled
    token := fun reachable => agrees.token? compiled compiled' reachable }

end AgreesOnReachable

/-- Definitions that declare whatever the start reaches alike come to the same
verdict on every text. -/
theorem parse_eq_of_reachable (compiled : definition.compile = .ok grammar)
    (compiled' : definition'.compile = .ok grammar')
    (agrees : definition.AgreesOnReachable definition') (text : Text) :
    grammar'.parse text = grammar.parse text := by
  obtain ⟨_, _, _, _, _, options⟩ := compile_eq_ok_iff.mp compiled
  obtain ⟨_, _, _, _, _, options'⟩ := compile_eq_ok_iff.mp compiled'
  have limit : grammar'.options.recursionLimit = grammar.options.recursionLimit := by
    rw [options, options', agrees.options]
  refine (agrees.akin compiled compiled').parse_eq ?_ ?_ (by omega)
    (fun less => absurd less (by omega))
  · intro name expression reachable found
    exact ⟨expression, agrees.production? compiled compiled' reachable found, rfl⟩
  · intro name expression reachable found node inside target refers
    exact reachable.of_mem_visit compiled found inside refers

/-- Greetings. Nothing in them refers to digits. -/
def greeting : Definition where
  start := "greeting"
  tokens := [⟨"word", "[a-z]+"⟩, ⟨"digit", "[0-9]"⟩, ⟨"mark", "!"⟩]
  productions := [⟨"age", "digit+"⟩, ⟨"greeting", "word name? mark"⟩, ⟨"name", "word"⟩]

/-- Greetings in another order, with other digits and other rules beside them. -/
def greetingAmongOthers : Definition where
  start := "greeting"
  tokens := [⟨"mark", "!"⟩, ⟨"digit", "[01]+"⟩, ⟨"dash", "-"⟩, ⟨"word", "[a-z]+"⟩]
  productions := [⟨"name", "word"⟩, ⟨"list", "greeting (dash list)?"⟩,
    ⟨"greeting", "word name? mark"⟩]

theorem greeting_agreesOnReachable : greeting.AgreesOnReachable greetingAmongOthers := by
  have keeps : greeting.keepsTo ["greeting", "name", "word", "mark"] = true := by decide +kernel
  refine ⟨rfl, rfl, fun rule mem reachable => ?_, fun rule mem reachable => ?_⟩
  · exact (by decide : ∀ rule ∈ greeting.tokens,
      rule.name ∈ ["greeting", "name", "word", "mark"] → rule ∈ greetingAmongOthers.tokens)
      rule mem (reachable.mem_of_keepsTo keeps)
  · exact (by decide : ∀ rule ∈ greeting.productions,
      rule.name ∈ ["greeting", "name", "word", "mark"] → rule ∈ greetingAmongOthers.productions)
      rule mem (reachable.mem_of_keepsTo keeps)

theorem greeting_parse_eq :
    ∃ grammar grammar' tree, greeting.compile = .ok grammar ∧
      greetingAmongOthers.compile = .ok grammar' ∧
      greeting.AgreesOnReachable greetingAmongOthers ∧
      grammar.parse "hello world!".toList = .tree tree ∧
      grammar'.parse "hello world!".toList = .tree tree := by
  obtain ⟨grammar, tree, compiled, parsed, _⟩ :=
    exists_of_yields greeting "hello world!".toList
      (show yields _ _ (fun _ tree => tree.label == "greeting") = true by decide +kernel)
  obtain ⟨grammar', _, compiled', _⟩ :=
    exists_of_yields greetingAmongOthers "hello world!".toList
      (show yields _ _ (fun _ tree => tree.label == "greeting") = true by decide +kernel)
  have same := parse_eq_of_reachable compiled compiled' greeting_agreesOnReachable
    "hello world!".toList
  exact ⟨grammar, grammar', tree, compiled, compiled', greeting_agreesOnReachable, parsed,
    same.trans parsed⟩

end Definition

end TextGrammar
