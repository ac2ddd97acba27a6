import TextGrammar.Proofs.Parse.Agreement

/-!
Higher limits change nothing.

A parse that doesn't run into the recursion limit comes to the same verdict under
every higher limit. What has been remembered is looked up before the limit, and the
limit before the productions in progress, so with more room every production still
takes the way it took.
-/

namespace TextGrammar

namespace Grammar

variable {grammar : Grammar}

/-- A closed grammar is akin to itself under another limit. -/
theorem Closed.akin_withLimit (closed : grammar.Closed) (limit : Nat) :
    grammar.Akin grammar.Declares
      { grammar with options := { grammar.options with recursionLimit := limit } } where
  closed := closed
  closed' := ⟨closed.start, closed.apart, closed.referential, closed.declared⟩
  options := rfl
  start := rfl
  named := .inr closed.start
  declares := id
  token := fun _ => rfl

/-- Where a parse of a closed grammar doesn't run into the limit, it comes to the same
verdict under a higher one. -/
theorem Closed.parse_withLimit (closed : grammar.Closed) {limit : Nat}
    (higher : grammar.options.recursionLimit ≤ limit) (text : Text)
    (unlimited : ∀ name offset, grammar.parse text ≠ .error (.recursionLimit name offset)) :
    Grammar.parse { grammar with options := { grammar.options with recursionLimit := limit } }
      text = grammar.parse text := by
  refine (closed.akin_withLimit limit).parse_eq ?_ ?_ higher fun _ name offset =>
    unlimited name offset
  · intro name expression _ found
    exact ⟨expression, found, rfl⟩
  · intro name expression _ found node inside target refers
    exact closed.declared found node inside target refers

end Grammar

namespace Definition

def limited (definition : Definition) (limit : Nat) : Definition :=
  definition.withOptions { definition.options with recursionLimit := limit }

/-- A definition compiles under every limit, to the same grammar but for the limit. -/
theorem compile_limited {definition : Definition} {grammar : Grammar}
    (compiled : definition.compile = .ok grammar) (limit : Nat) :
    (definition.limited limit).compile =
      .ok { grammar with options := { grammar.options with recursionLimit := limit } } := by
  obtain ⟨ofTokens, distinct, ofProductions, start, isStart, options⟩ :=
    compile_eq_ok_iff.mp compiled
  refine compile_eq_ok_iff.mpr ⟨ofTokens, distinct, ofProductions, start, isStart, ?_⟩
  rw [options]
  rfl

/-- A definition compiles whatever its limit is, and where a parse doesn't run into
the limit, with memory or without, it comes to the same tree or the same error under
every higher limit. -/
theorem parse_limited {definition : Definition} {low high : Nat} {grammar : Grammar}
    (higher : low ≤ high) (compiled : (definition.limited low).compile = .ok grammar) (text : Text)
    (unlimited : ∀ name offset, grammar.parse text ≠ .error (.recursionLimit name offset)) :
    ∃ grammar', (definition.limited high).compile = .ok grammar' ∧
      grammar'.parse text = grammar.parse text := by
  have lower : grammar.options.recursionLimit = low := by
    obtain ⟨_, _, _, _, _, options⟩ := compile_eq_ok_iff.mp compiled
    rw [options]
    rfl
  exact ⟨_, compile_limited compiled high,
    (closed_of_compile_eq_ok compiled).parse_withLimit (lower ▸ higher) text unlimited⟩

/-- Words in parentheses, each of which takes one more production to get inside. -/
def nested : Definition where
  start := "nest"
  tokens := [⟨"word", "[a-z]+"⟩, ⟨"open", "\\("⟩, ⟨"close", "\\)"⟩]
  productions := [⟨"nest", "open nest close|word"⟩]

/-- Three nests are inside one another, so a limit of three is enough. -/
theorem nested_limited :
    ∃ grammar grammar' tree, (nested.limited 3).compile = .ok grammar ∧
      (nested.limited 256).compile = .ok grammar' ∧
      grammar.parse "( (a) )".toList = .tree tree ∧
      grammar'.parse "( (a) )".toList = .tree tree := by
  obtain ⟨grammar, tree, compiled, parsed, _⟩ :=
    exists_of_yields (nested.limited 3) "( (a) )".toList
      (show yields _ _ (fun _ tree => tree.label == "nest") = true by decide +kernel)
  obtain ⟨grammar', compiles, same⟩ := parse_limited (by decide : 3 ≤ 256) compiled
    "( (a) )".toList (fun name offset limited => by cases parsed.symm.trans limited)
  exact ⟨grammar, grammar', tree, compiled, compiles, parsed, same.trans parsed⟩

end Definition

end TextGrammar
