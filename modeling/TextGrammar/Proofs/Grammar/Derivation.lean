import TextGrammar.Pattern.Match
import TextGrammar.Proofs.Grammar.Compiled
import TextGrammar.Proofs.Tree.Layout

/-!
The trees that a grammar derives from a text.

A leaf is derived where the pattern of its token matches, and a production node
over children that its expression generates. `Grammar.Derives` knows nothing of
how a parse goes about it. Where derived trees stand in the text is said by
`Grammar.Spans`: their tokens are laid out over a stretch of it, with gaps of
what the grammar passes over.
-/

namespace TextGrammar

/-- A set that matches where none of its items does. -/
def Kind.isNegated : Kind → Bool
  | .set _ negated => negated
  | _ => false

namespace Grammar

/-- The trees that the grammar derives from a text. -/
inductive Derives (grammar : Grammar) (text : Text) : ParseTree → Prop where
  /-- A token stands for the text that its pattern matches, which is not empty. -/
  | token {name : String} {pattern : Pattern} {offset : Nat} {m : Match} {value : Text} :
      grammar.token? name = some pattern → pattern.matchAt? text offset = some m →
      text.slice? offset m.stop = some value → value ≠ [] →
      Derives grammar text (.leaf name (String.ofList value) offset)
  /-- A production stands for a word of its expression. -/
  | production {name : String} {expression : Expression} {children : List ParseTree} :
      grammar.production? name = some expression → expression.root.Generates children →
      (∀ child ∈ children, Derives grammar text child) →
      Derives grammar text (.production name children)

/-- No expression of the grammar has a negated set. -/
def NegationFree (grammar : Grammar) : Prop :=
  ∀ production ∈ grammar.productions, ∀ node ∈ production.2.root.visit,
    node.kind.isNegated = false

instance (grammar : Grammar) : Decidable grammar.NegationFree :=
  inferInstanceAs (Decidable (∀ production ∈ grammar.productions,
    ∀ node ∈ production.2.root.visit, node.kind.isNegated = false))

/-- The characters that may stand between the tokens of a tree: whitespace if it
is skipped, and whatever a negated set may match. -/
def Skips (grammar : Grammar) (c : Char) : Prop :=
  (grammar.options.skipWhitespace = true ∧ isWhitespace c = true) ∨ ¬ grammar.NegationFree

/-- The trees are derived, and their tokens are laid out between the offsets. -/
structure Spans (grammar : Grammar) (text : Text) (start : Nat) (word : List ParseTree)
    (stop : Nat) : Prop where
  derived : ∀ tree ∈ word, grammar.Derives text tree
  laid : text.Laid grammar.Skips start (ParseTree.tokensOfAll word) stop

variable {grammar : Grammar} {text : Text} {start middle stop : Nat}
  {word front back : List ParseTree}

/-- From every place whitespace is skipped to another place, if it is skipped at
all, and what lies between is a gap. -/
theorem exists_skip (grammar : Grammar) {skips : Prop} [Decidable skips]
    (skipped : skips → grammar.options.skipWhitespace = true) (place : text.IsPlace start) :
    ∃ stop, (if skips then text.skipWhitespace? start else some start) = some stop ∧
      text.Blank grammar.Skips start stop := by
  by_cases skip : skips
  · obtain ⟨stop, between, found, isBetween, whitespace⟩ := Text.exists_skipWhitespace? place
    refine ⟨stop, ?_, between, isBetween, ?_⟩
    · rw [if_pos skip]
      exact found
    · intro c mem
      exact .inl ⟨skipped skip, whitespace c mem⟩
  · refine ⟨start, ?_, .refl place⟩
    rw [if_neg skip]

/-- A gap is spanned by no tree. -/
theorem spans_nil (gap : text.Blank grammar.Skips start stop) :
    grammar.Spans text start [] stop where
  derived := by simp
  laid := by
    rw [ParseTree.tokensOfAll]
    exact .gap gap

theorem Spans.append (first : grammar.Spans text start front middle)
    (second : grammar.Spans text middle back stop) :
    grammar.Spans text start (front ++ back) stop where
  derived := by
    intro tree mem
    rcases List.mem_append.mp mem with inFront | inBack
    · exact first.derived tree inFront
    · exact second.derived tree inBack
  laid := by
    rw [ParseTree.tokensOfAll_append]
    exact first.laid.append second.laid

/-- A token spans the gap before it and what its pattern matches. -/
theorem spans_leaf {name : String} {pattern : Pattern} {offset : Nat} {m : Match} {value : Text}
    (found : grammar.token? name = some pattern) (matched : pattern.matchAt? text offset = some m)
    (between : text.slice? offset m.stop = some value) (nonempty : value ≠ [])
    (place : text.IsPlace m.stop) (gap : text.Blank grammar.Skips start offset) :
    grammar.Spans text start [.leaf name (String.ofList value) offset] m.stop where
  derived := by
    intro tree mem
    rw [List.mem_singleton.mp mem]
    exact .token found matched between nonempty
  laid := by
    rw [ParseTree.tokensOfAll_singleton, ParseTree.tokens_leaf]
    exact .leaf gap between nonempty (.gap (.refl place))

/-- A production spans what its children span. -/
theorem Spans.production {name : String} {expression : Expression}
    (spans : grammar.Spans text start word stop)
    (found : grammar.production? name = some expression)
    (generated : expression.root.Generates word) :
    grammar.Spans text start [.production name word] stop where
  derived := by
    intro tree mem
    rw [List.mem_singleton.mp mem]
    exact .production found generated spans.derived
  laid := by
    rw [ParseTree.tokensOfAll_singleton, ParseTree.tokens_production]
    exact spans.laid

end Grammar

end TextGrammar
