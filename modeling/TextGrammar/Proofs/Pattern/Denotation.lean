import Mathlib.Logic.Relation
import TextGrammar.Pattern.Match
import TextGrammar.Proofs.Pattern.WellFormed
import TextGrammar.Proofs.Text.Place
import TextGrammar.Proofs.Walk.Contract

/-!
What patterns stand for.

A pattern stands for a relation between the positions of a text: where a match
may start, and where it may then end. `Sequence.Denotes` builds the relation from
those of the parts, as regular expressions are explained everywhere: alternatives
are unions, sequences compose, and a quantifier asks for a composition of the
relation with itself. It knows nothing of the order in which alternatives are
tried, nor of greed. `Pattern.denotes_of_matchAt` says that whatever is matched is
a match in this sense.
-/

namespace TextGrammar

/-! ### Relations between positions -/

/-- An offset of a text at which it can be cut. -/
@[ext]
structure Text.Position (text : Text) where
  offset : Nat
  place : text.IsPlace offset

/-- The two sides of a character that passes a test. -/
def Text.Sides {text : Text} (test : Char → Prop) (start stop : text.Position) : Prop :=
  ∃ c, text.slice? start.offset stop.offset = some [c] ∧ test c

/-- The last of these characters is one of a word. -/
def Text.EndsInWord (front : Text) : Prop :=
  ∃ c, front.getLast? = some c ∧ isWord c = true

/-- The first of these characters is one of a word. -/
def Text.StartsInWord (back : Text) : Prop :=
  ∃ c, back.head? = some c ∧ isWord c = true

/-- On one side of the position there is a character of a word, on the other
there is none. -/
def Text.Position.IsWordBoundary {text : Text} (position : text.Position) : Prop :=
  ∃ front back : Text, text = front ++ back ∧ front.size = position.offset ∧
    ¬ (front.EndsInWord ↔ back.StartsInWord)

/-- A relation composed with itself, that many times over. -/
def Composed {α : Type} (relation : α → α → Prop) : Nat → α → α → Prop
  | 0 => Eq
  | count + 1 => Relation.Comp relation (Composed relation count)

/-- The bounds admit a number of repetitions. -/
def Quantifier.Admits (bounds : Quantifier) (count : Nat) : Prop :=
  bounds.min ≤ count ∧ ∀ max, bounds.max = some max → count ≤ max

mutual

/-- What a kind stands for: a class or a set for the sides of one character, a
word boundary for a position and itself, a group for what its body stands for.
A reference stands for nothing here. -/
def Kind.Denotes {text : Text} : Kind → text.Position → text.Position → Prop
  | .group _ body => body.Denotes
  | .set items negated =>
      Text.Sides fun c => (∃ item ∈ items, item.kind.accepts c = true) ↔ negated = false
  | .single chars => Text.Sides fun c => chars.accepts c = true
  | .wordBoundary => fun start stop => start.IsWordBoundary ∧ start = stop
  | .reference _ => fun _ _ => False

/-- What a node stands for: its kind, as many times over as its bounds admit. -/
def Node.Denotes {text : Text} : Node → text.Position → text.Position → Prop
  | ⟨kind, quantifier⟩ => fun start stop =>
      ∃ count, (quantifier.getD .once).Admits count ∧
        Composed (fun start stop => kind.Denotes start stop) count start stop

def Node.AllDenote {text : Text} : List Node → text.Position → text.Position → Prop
  | [] => Eq
  | node :: nodes => Relation.Comp node.Denotes (Node.AllDenote nodes)

/-- What a sequence stands for: its nodes, or one of its alternatives. -/
def Sequence.Denotes {text : Text} : Sequence → text.Position → text.Position → Prop
  | .only nodes => Node.AllDenote nodes
  | .either nodes alternate => fun start stop =>
      Node.AllDenote nodes start stop ∨ alternate.Denotes start stop

end

/-- What leads from a position back to it does so any number of times over. -/
theorem composed_self {α : Type} {relation : α → α → Prop} {position : α}
    (again : relation position position) : ∀ count, Composed relation count position position
  | 0 => rfl
  | count + 1 => ⟨position, again, composed_self again count⟩

/-! ### What walks find -/

variable {ε σ : Type}

/-- Where a walk from a position ends is related to the position. -/
def Walked.Finds {text : Text} (relation : text.Position → text.Position → Prop)
    (start : text.Position) (walked : Walked ε σ) : Prop :=
  ∀ stop, walked.outcome = .reached stop →
    ∃ position : text.Position, position.offset = stop ∧ relation start position

section Finds

variable {text : Text} {relation relation' : text.Position → text.Position → Prop}
  {start : text.Position} {walked : Walked ε σ}

theorem Walked.finds_of_not_reached (stuck : ∀ stop, walked.outcome ≠ .reached stop) :
    walked.Finds relation start :=
  fun stop reached => absurd reached (stuck stop)

theorem Walked.finds_of_reached {stop : text.Position}
    (reached : walked.outcome = .reached stop.offset) (related : relation start stop) :
    walked.Finds relation start := by
  intro offset reached'
  cases reached.symm.trans reached'
  exact ⟨stop, rfl, related⟩

theorem Walked.Finds.mono (finds : walked.Finds relation start)
    (weaker : ∀ stop, relation start stop → relation' start stop) :
    walked.Finds relation' start := by
  intro stop reached
  obtain ⟨position, same, related⟩ := finds stop reached
  exact ⟨position, same, weaker position related⟩

/-- Walks one after another find the composition. -/
theorem Walked.Finds.andThen {next : Nat → Trace → σ → Walked ε σ}
    (finds : walked.Finds relation start)
    (goesOn : ∀ (middle : text.Position) trace state,
      (next middle.offset trace state).Finds relation' middle) :
    (walked.andThen next).Finds (Relation.Comp relation relation') start := by
  cases ends : walked.outcome with
  | reached stop =>
      obtain ⟨middle, rfl, related⟩ := finds stop ends
      rw [andThen_of_reached ends]
      intro last reached
      obtain ⟨stop, same, onward⟩ := goesOn middle _ _ last reached
      exact ⟨stop, same, middle, related, onward⟩
  | failed | raised | misplaced =>
      rw [andThen_of_not_reached (by simp [ends])]
      exact finds_of_not_reached (by simp [ends])

/-- A walk that is tried where another one fails finds the union with it. -/
theorem Walked.Finds.orElse {other : Trace → σ → Walked ε σ} (finds : walked.Finds relation start)
    (tries : ∀ trace state, (other trace state).Finds relation' start) :
    (walked.orElse other).Finds (fun start stop => relation start stop ∨ relation' start stop)
      start := by
  by_cases failed : walked.outcome = .failed
  · rw [orElse_of_failed failed]
    exact (tries _ _).mono fun _ related => .inr related
  · rw [orElse_of_not_failed failed]
    exact finds.mono fun _ related => .inl related

end Finds

/-! ### Single characters -/

section Characters

variable {text : Text}

theorem Walked.finds_matchChar {test : Char → Bool} {sort : Char → Prop} {start : text.Position}
    {walked : Walked ε σ} (outcome : walked.outcome = text.matchChar test start.offset)
    (implies : ∀ c, test c = true → sort c) : walked.Finds (Text.Sides sort) start := by
  intro stop reached
  obtain ⟨c, between, passes⟩ := Text.exists_of_matchChar_eq_reached (outcome.symm.trans reached)
  exact ⟨⟨stop, Text.isPlace_stop_of_slice? between⟩, rfl, c, between, implies c passes⟩

/-- Word boundaries are found at word boundaries only. -/
theorem Walked.finds_matchWordBoundary {start : text.Position} {walked : Walked ε σ}
    (outcome : walked.outcome = text.matchWordBoundary start.offset) :
    walked.Finds (fun start stop => start.IsWordBoundary ∧ start = stop) start := by
  intro stop reached
  rw [outcome] at reached
  unfold Text.matchWordBoundary at reached
  split at reached
  · cases reached
  · rename_i front back cut
    split at reached
    · rename_i differ
      cases reached
      obtain ⟨whole, sized⟩ := Text.split?_eq_some_iff.mp cut
      refine ⟨start, rfl, ⟨front, back, whole, sized, ?_⟩, rfl⟩
      intro same
      apply differ
      rw [Bool.eq_iff_iff]
      simpa [Option.any_eq_true, Text.EndsInWord, Text.StartsInWord] using same
    · cases reached

end Characters

/-! ### Sets -/

section Sets

variable {setting : Setting ε σ} {offset : Nat} {items : List Node}

/-- At a place in the text a set tries whether one of its items takes the character there. -/
theorem Node.outcome_walkAny (place : setting.text.IsPlace offset) (trace : Trace) (state : σ)
    (allItems : ∀ item ∈ items, item.IsItem) :
    (Node.walkAny setting items offset trace state).outcome =
      setting.text.matchChar (fun c => items.any fun item => item.kind.accepts c) offset := by
  obtain ⟨rest, found⟩ := Text.isPlace_iff.mp place
  induction items with
  | nil => cases rest <;> simp [Node.walkAny, Text.matchChar, found]
  | cons item items ih =>
      obtain ⟨⟨chars, _, rfl⟩, others⟩ := List.forall_mem_cons.mp allItems
      have later := ih others
      rw [Node.walkAny_cons, Kind.walk]
      cases rest with
      | nil =>
          rw [Walked.orElse_of_failed (by simp [Text.matchChar, found]), later]
          simp [Text.matchChar, found]
      | cons c rest =>
          cases takes : chars.accepts c with
          | true =>
              rw [Walked.orElse_of_not_failed (by simp [Text.matchChar, found, takes])]
              simp [Text.matchChar, found, takes, Node.kind, Kind.accepts]
          | false =>
              rw [Walked.orElse_of_failed (by simp [Text.matchChar, found, takes]), later]
              simp [Text.matchChar, found, takes, Node.kind, Kind.accepts]

/-- A set takes a character that one of its items takes or, negated, that none does. -/
theorem Kind.outcome_walk_set (place : setting.text.IsPlace offset) (trace : Trace) (state : σ)
    (allItems : ∀ item ∈ items, item.IsItem) (negated : Bool) :
    ((Kind.set items negated).walk setting offset trace state).outcome =
      setting.text.matchChar
        (fun c => (items.any fun item => item.kind.accepts c) != negated) offset := by
  have plain := Node.outcome_walkAny place trace state allItems
  cases negated with
  | false =>
      rw [Kind.walk, plain]
      simp
  | true =>
      obtain ⟨rest, found⟩ := Text.isPlace_iff.mp place
      rw [Kind.walk_negated, Walked.negate, plain]
      cases rest with
      | nil => simp [Text.matchChar, found]
      | cons c rest =>
          cases takes : items.any fun item => item.kind.accepts c with
          | true => simp [Text.matchChar, found, takes]
          | false => simp [Text.matchChar, found, takes]

end Sets

/-! ### Repetitions -/

section Repetition

variable {text : Text} {relation : text.Position → text.Position → Prop} {bounds : Quantifier}
  {attempt : Nat → Trace → σ → Walked ε σ}

/-- From a position after `quantity` repetitions, more of them lead to another one,
so that they are counted as so many in all, and not as more than the bounds admit. -/
def Recounts (relation : text.Position → text.Position → Prop) (bounds : Quantifier)
    (quantity counted : Nat) (start stop : text.Position) : Prop :=
  ∃ count, Composed relation count start stop ∧ counted = quantity + count ∧
    ∀ max, bounds.max = some max → counted ≤ max

/-- However a repetition ends, what it counts is a composition of what its attempts
find. -/
theorem repeatWithin_recounts (ordered : ∀ max, bounds.max = some max → bounds.min ≤ max)
    (attempted : ∀ (start : text.Position) trace state,
      (attempt start.offset trace state).Finds relation start) :
    ∀ (attempts quantity : Nat) (start : text.Position) (trace : Trace) (state : σ),
      (∀ max, bounds.max = some max → quantity ≤ max) →
      (repeatWithin attempt bounds attempts quantity start.offset trace state).2.Finds
        (Recounts relation bounds quantity
          (repeatWithin attempt bounds attempts quantity start.offset trace state).1) start := by
  intro attempts
  induction attempts with
  | zero =>
      intro quantity start trace state few
      cases more : bounds.allowsMore quantity with
      | false =>
          rw [repeatWithin_of_enough more]
          exact Walked.finds_of_reached rfl ⟨0, rfl, rfl, few⟩
      | true =>
          rw [repeatWithin_zero more]
          exact Walked.finds_of_not_reached (by simp)
  | succ attempts ih =>
      intro quantity start trace state few
      have stay : ∀ walked : Walked ε σ, walked.outcome = .reached start.offset →
          walked.Finds (Recounts relation bounds quantity quantity) start :=
        fun walked reached => Walked.finds_of_reached reached ⟨0, rfl, rfl, few⟩
      cases more : bounds.allowsMore quantity with
      | false =>
          rw [repeatWithin_of_enough more]
          exact stay _ rfl
      | true =>
          have finds := attempted start trace state
          have room : ∀ max, bounds.max = some max → quantity + 1 ≤ max := by
            intro max bounded
            simp only [Quantifier.allowsMore, bounded, decide_eq_true_eq] at more
            exact more
          cases ends : (attempt start.offset trace state).outcome with
          | reached stop =>
              obtain ⟨middle, rfl, related⟩ := finds stop ends
              by_cases empty : middle.offset = start.offset
              · obtain rfl : middle = start := Text.Position.ext empty
                rw [repeatWithin_of_empty more ends]
                split
                · exact stay _ rfl
                · -- An empty match can be repeated as often as the minimum asks for,
                  -- so a single one may count for all that is left of it.
                  rename_i below
                  exact Walked.finds_of_reached ends
                    ⟨bounds.min - quantity, composed_self related _, by omega, ordered⟩
              · rw [repeatWithin_of_reached more ends empty]
                intro last reached
                obtain ⟨stop, same, count, onward, counted, few⟩ :=
                  ih (quantity + 1) middle _ _ room last reached
                exact ⟨stop, same, count + 1, ⟨middle, related, onward⟩, by omega, few⟩
          | failed =>
              rw [repeatWithin_of_failed more ends]
              exact stay _ rfl
          | raised | misplaced =>
              rw [repeatWithin_of_aborted more (by simp [ends]) (by simp [ends])]
              exact Walked.finds_of_not_reached (by simp [ends])

/-- A repetition that is settled with a match has reached its minimum. -/
theorem min_le_of_settleRepetition {kind : Kind} {quantity offset stop : Nat} {trace : Trace}
    {walked : Walked ε σ}
    (reached : (settleRepetition kind bounds offset trace quantity walked).outcome =
      .reached stop) : bounds.min ≤ quantity := by
  unfold settleRepetition at reached
  split at reached
  · split at reached
    · cases reached
    · rename_i enough
      exact Nat.not_lt.mp enough
  · rename_i unreached
    exact absurd reached (unreached stop)

/-- A node is settled with as many repetitions as its bounds admit. -/
theorem settleRepetition_finds {kind : Kind} {quantity : Nat} {start : text.Position}
    {trace : Trace} {walked : Walked ε σ}
    (finds : walked.Finds (Recounts relation bounds 0 quantity) start) :
    (settleRepetition kind bounds start.offset trace quantity walked).Finds
      (fun start stop => ∃ count, bounds.Admits count ∧ Composed relation count start stop)
      start := by
  intro last reached
  obtain ⟨stop, same, count, composed, counted, few⟩ :=
    finds last (reached_of_settleRepetition reached)
  obtain rfl : quantity = count := by omega
  exact ⟨stop, same, quantity, ⟨min_le_of_settleRepetition reached, few⟩, composed⟩

end Repetition

/-! ### Sequences -/

section Walks

variable {setting : Setting ε σ}

mutual

/-- The walk of a kind that patterns are made of finds what the kind stands for. -/
theorem Kind.walk_finds : ∀ (kind : Kind), kind.WellFormed →
    ∀ (start : setting.text.Position) trace state,
      (kind.walk setting start.offset trace state).Finds kind.Denotes start
  | .group _ body, wellFormed, start, trace, state => by
      rw [Kind.WellFormed] at wellFormed
      rw [Kind.walk, Kind.Denotes]
      exact body.walk_finds wellFormed start trace state
  | .set items negated, wellFormed, start, trace, state => by
      rw [Kind.WellFormed] at wellFormed
      rw [Kind.Denotes]
      apply Walked.finds_matchChar (Kind.outcome_walk_set start.place trace state wellFormed negated)
      intro c takes
      cases negated <;> simpa using takes
  | .single chars, _, start, trace, state => by
      rw [Kind.walk, Kind.Denotes]
      exact Walked.finds_matchChar rfl fun _ takes => takes
  | .wordBoundary, _, start, trace, state => by
      rw [Kind.walk, Kind.Denotes]
      exact Walked.finds_matchWordBoundary rfl
  | .reference _, wellFormed, _, _, _ => by
      rw [Kind.WellFormed] at wellFormed
      exact wellFormed.elim

theorem Node.walk_finds : ∀ (node : Node), node.WellFormed →
    ∀ (start : setting.text.Position) trace state,
      (node.walk setting start.offset trace state).Finds node.Denotes start
  | ⟨kind, quantifier⟩, wellFormed, start, trace, state => by
      obtain ⟨inside, bounded⟩ := wellFormed
      have ordered : ∀ max, (quantifier.getD .once).max = some max →
          (quantifier.getD .once).min ≤ max := by
        cases quantifier with
        | none => simp [Quantifier.once]
        | some bounds => exact (bounded bounds rfl).2.min_le
      simp only [Node.walk, Node.Denotes]
      exact settleRepetition_finds (repeatWithin_recounts ordered
        (fun start trace state => kind.walk_finds inside start trace state)
        _ 0 start trace state (fun _ _ => Nat.zero_le _))

theorem Node.walkAll_finds : ∀ (nodes : List Node), Node.AllWellFormed nodes →
    ∀ (start : setting.text.Position) trace state,
      (Node.walkAll setting nodes start.offset trace state).Finds (Node.AllDenote nodes) start
  | [], _, start, trace, state => by
      rw [Node.walkAll, Node.AllDenote]
      exact Walked.finds_of_reached rfl rfl
  | node :: nodes, wellFormed, start, trace, state => by
      obtain ⟨first, others⟩ := wellFormed
      rw [Node.walkAll_cons, Node.AllDenote]
      exact (node.walk_finds first start trace state).andThen fun middle trace state =>
        Node.walkAll_finds nodes others middle trace state

/-- The walk of a sequence that is that of a pattern finds what it stands for. -/
theorem Sequence.walk_finds : ∀ (sequence : Sequence), sequence.WellFormed →
    ∀ (start : setting.text.Position) trace state,
      (sequence.walk setting start.offset trace state).Finds sequence.Denotes start
  | .only nodes, wellFormed, start, trace, state => by
      rw [Sequence.WellFormed] at wellFormed
      have finds := Node.walkAll_finds nodes wellFormed start trace state
      have nothing : ∀ (_ : Trace) state,
          (⟨.failed, trace, state⟩ : Walked ε σ).Finds (fun _ _ => False) start :=
        fun _ _ => Walked.finds_of_not_reached (by simp)
      rw [Sequence.walk_only, Sequence.Denotes]
      exact (finds.orElse nothing).mono fun _ related => related.resolve_right id
  | .either nodes alternate, wellFormed, start, trace, state => by
      obtain ⟨first, others⟩ := wellFormed
      rw [Sequence.walk_either, Sequence.Denotes]
      exact (Node.walkAll_finds nodes first start trace state).orElse fun _ state =>
        alternate.walk_finds others start trace state

end

end Walks

namespace Pattern

/-- Whatever a compiled pattern matches is a match in the sense of regular
expressions: from where it was looked for to where it ends. -/
theorem denotes_of_matchAt {source : String} {pattern : Pattern} {text : Text} {offset : Nat}
    {m : Match} (compiled : compile source = .ok pattern)
    (found : pattern.matchAt? text offset = some m) :
    ∃ start stop : text.Position, start.offset = m.start ∧ stop.offset = m.stop ∧
      m.start = offset ∧ pattern.root.Denotes start stop := by
  obtain ⟨_, wellFormed, _⟩ := isPattern_of_compile_eq_ok compiled
  unfold matchAt? at found
  split at found
  · rename_i rest
    have place : text.IsPlace offset := Text.isPlace_iff.mpr (Option.isSome_iff_exists.mp rest)
    have finds : (pattern.walk text offset).Finds pattern.root.Denotes ⟨offset, place⟩ :=
      pattern.root.walk_finds wellFormed ⟨offset, place⟩ {} ()
    simp only at found
    split at found
    · rename_i last reached
      cases found
      obtain ⟨stop, same, denotes⟩ := finds last reached
      exact ⟨⟨offset, place⟩, stop, rfl, same, rfl, denotes⟩
    · cases found
  · cases found

/-- Of the four words that are asked for, two are found and the others are empty. -/
theorem words_denotes :
    ∃ pattern m, compile "((\\w*\\b)\x7b2\x7d[^a-c\\s]?)\x7b4\x7d" = .ok pattern ∧
      pattern.matchAt? "é: ab-cd".toList 4 = some m ∧
      ∃ start stop : Text.Position "é: ab-cd".toList, start.offset = 4 ∧ stop.offset = 9 ∧
        pattern.root.Denotes start stop := by
  have computed : (match compile "((\\w*\\b)\x7b2\x7d[^a-c\\s]?)\x7b4\x7d" with
      | .ok pattern => (pattern.matchAt? "é: ab-cd".toList 4).map Match.stop
      | .error _ => none) = some 9 := by decide +kernel
  split at computed
  · rename_i pattern compiled
    obtain ⟨m, found, ends⟩ := Option.map_eq_some_iff.mp computed
    obtain ⟨start, stop, starts, stops, same, denotes⟩ := denotes_of_matchAt compiled found
    exact ⟨pattern, m, compiled, found, start, stop, starts.trans same, stops.trans ends, denotes⟩
  · cases computed

end Pattern

end TextGrammar
