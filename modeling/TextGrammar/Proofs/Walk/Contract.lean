import TextGrammar.Proofs.Text.Place
import TextGrammar.Proofs.Walk.Chain
import TextGrammar.Proofs.Walk.Generation

/-!
What a walk keeps, given what its references keep.

A contract says what is true of the resolver's state, what the trees recorded
between two offsets are like, and which errors may end a walk. If every reference
keeps a contract that is lawful for the setting, so does the walk of a sequence
(`Sequence.walk_met`): the places it reaches lie in the text and not before its
start, the trees that it adds form a word that the sequence generates, and it
never looks at the text from an offset that is no place. In particular no
repetition needs more attempts than it is given.
-/

namespace TextGrammar

variable {ε σ : Type}

/-- What is promised of walks whose nodes are of certain kinds. -/
structure Contract (ε σ : Type) where
  /-- The kinds of nodes that the walks may meet. -/
  meets : Kind → Prop
  /-- What is true of every state of the resolver. -/
  holds : σ → Prop
  /-- What the trees that are recorded between two offsets are like. -/
  span : Nat → List ParseTree → Nat → Prop
  /-- The errors that may end a walk. -/
  raises : ε → Prop

namespace Contract

/-- The way from an offset and a trace to another offset and trace: the trees
that are new in the trace form a word of a language and span the way. -/
structure Passage (c : Contract ε σ) (text : Text) (language : List ParseTree → Prop)
    (offset : Nat) (trace : Trace) (stop : Nat) (after : Trace) : Prop where
  place : text.IsPlace stop
  le : offset ≤ stop
  word : ∃ word, after.trees = word.reverse ++ trace.trees ∧ language word ∧
    c.span offset word stop

/-- What the contract says of one walk from an offset with a trace. -/
structure Met (c : Contract ε σ) (text : Text) (language : List ParseTree → Prop)
    (offset : Nat) (trace : Trace) (walked : Walked ε σ) : Prop where
  holds : c.holds walked.state
  reached : ∀ stop, walked.outcome = .reached stop →
    c.Passage text language offset trace stop walked.trace
  raised : ∀ error, walked.outcome = .raised error → c.raises error
  placed : walked.outcome ≠ .misplaced

/-- A contract that walks keep when references do. -/
structure Lawful (c : Contract ε σ) (setting : Setting ε σ) : Prop where
  here : ∀ {offset}, setting.text.IsPlace offset → c.span offset [] offset
  join : ∀ {start middle stop front back}, c.span start front middle → c.span middle back stop →
    c.span start (front ++ back) stop
  /-- Trees that take no room have no tokens. -/
  tokenless : ∀ {offset word}, c.span offset word offset → ParseTree.tokensOfAll word = []
  /-- A character that is matched without a token. -/
  character : ∀ {kind offset stop char}, c.meets kind →
    (∃ chars, kind = .single chars) ∨ (∃ items, kind = .set items true) →
    setting.text.slice? offset stop = some [char] → c.span offset [] stop
  reference : ∀ {name offset trace state}, c.meets (.reference name) →
    setting.text.IsPlace offset → c.holds state →
    c.Met setting.text (Kind.reference name).Generates offset trace
      (setting.resolve name offset trace state)
  tidy : setting.Tidy
  /-- A repetition may go on as long as there is text left. -/
  enough : ∀ offset, setting.text.size - offset ≤ setting.furtherAttempts offset

section Met

variable {c : Contract ε σ} {text : Text} {language : List ParseTree → Prop}
  {offset stop : Nat} {trace after : Trace} {walked : Walked ε σ} {state : σ}

/-- A walk that fails has nothing to show but the resolver's state. -/
theorem met_of_failed (holds : c.holds walked.state) (failed : walked.outcome = .failed) :
    c.Met text language offset trace walked where
  holds := holds
  reached := by simp [failed]
  raised := by simp [failed]
  placed := by simp [failed]

theorem met_of_reached (holds : c.holds walked.state) (reached : walked.outcome = .reached stop)
    (passage : c.Passage text language offset trace stop walked.trace) :
    c.Met text language offset trace walked where
  holds := holds
  reached := by
    intro stop' same
    cases reached.symm.trans same
    exact passage
  raised := by simp [reached]
  placed := by simp [reached]

/-- A walk that ends early keeps whatever languages and starts are asked of it. -/
theorem Met.of_not_reached {language' : List ParseTree → Prop} {offset' : Nat} {trace' : Trace}
    (met : c.Met text language offset trace walked)
    (stuck : ∀ stop, walked.outcome ≠ .reached stop) :
    c.Met text language' offset' trace' walked :=
  { met with reached := fun stop reached => absurd reached (stuck stop) }

theorem Met.mono {language' : List ParseTree → Prop} (met : c.Met text language offset trace walked)
    (sub : ∀ word, language word → language' word) :
    c.Met text language' offset trace walked :=
  { met with
    reached := by
      intro stop reached
      obtain ⟨place, le, word, trees, generated, spans⟩ := met.reached stop reached
      exact ⟨place, le, word, trees, sub word generated, spans⟩ }

/-- Goes on where a walk has matched. -/
theorem Met.andThen {language' : List ParseTree → Prop}
    {next : Nat → Trace → σ → Walked ε σ} (met : c.Met text language offset trace walked)
    (goesOn : ∀ stop after state, c.Passage text language offset trace stop after →
      c.holds state → c.Met text language' offset trace (next stop after state)) :
    c.Met text language' offset trace (walked.andThen next) := by
  cases ends : walked.outcome with
  | reached stop =>
      rw [Walked.andThen_of_reached ends]
      exact goesOn stop _ _ (met.reached stop ends) met.holds
  | failed | raised | misplaced =>
      rw [Walked.andThen_of_not_reached (by simp [ends])]
      exact met.of_not_reached (by simp [ends])

/-- Tries something else where a walk has failed. -/
theorem Met.orElse {other : Trace → σ → Walked ε σ} {language' : List ParseTree → Prop}
    (met : c.Met text language offset trace walked) (sub : ∀ word, language word → language' word)
    (tries : walked.outcome = .failed → c.Met text language' offset trace
      (other walked.trace walked.state)) :
    c.Met text language' offset trace (walked.orElse other) := by
  by_cases failed : walked.outcome = .failed
  · rw [Walked.orElse_of_failed failed]
    exact tries failed
  · rw [Walked.orElse_of_not_failed failed]
    exact met.mono sub

/-- Two ways one after another are one way. -/
theorem Passage.met {setting : Setting ε σ} {front back whole : List ParseTree → Prop}
    (lawful : c.Lawful setting)
    (passage : c.Passage setting.text front offset trace stop after)
    (join : ∀ one two, front one → back two → whole (one ++ two))
    (met : c.Met setting.text back stop after walked) :
    c.Met setting.text whole offset trace walked :=
  { met with
    reached := by
      intro last reached
      obtain ⟨_, le, one, trees, inFront, spans⟩ := passage
      obtain ⟨place, le', two, trees', inBack, spans'⟩ := met.reached last reached
      refine ⟨place, Nat.le_trans le le', one ++ two, ?_, join one two inFront inBack,
        lawful.join spans spans'⟩
      rw [trees', trees, List.reverse_append, List.append_assoc] }

end Met

/-- The contract with something more that is true of every state. -/
def also (c : Contract ε σ) (p : σ → Prop) : Contract ε σ :=
  { c with holds := fun state => c.holds state ∧ p state }

/-- References that leave something true as long as they keep a contract keep the
contract with it. -/
theorem Lawful.also {c : Contract ε σ} {setting : Setting ε σ} {p : σ → Prop}
    (lawful : c.Lawful setting)
    (kept : ∀ {name offset trace state}, c.meets (.reference name) →
      setting.text.IsPlace offset → c.holds state → p state →
      p (setting.resolve name offset trace state).state) : (c.also p).Lawful setting where
  here := lawful.here
  join := lawful.join
  tokenless := lawful.tokenless
  character := lawful.character
  reference := by
    intro name offset trace state allowed place holds
    have met : c.Met setting.text (Kind.reference name).Generates offset trace
        (setting.resolve name offset trace state) := lawful.reference allowed place holds.1
    refine ⟨⟨met.holds, kept allowed place holds.1 holds.2⟩, ?_, met.raised, met.placed⟩
    intro stop reached
    obtain ⟨ends, le, word⟩ := met.reached stop reached
    exact ⟨ends, le, word⟩
  tidy := lawful.tidy
  enough := lawful.enough

end Contract

/-! ### Single characters -/

/-- At a place a character either passes the test and takes its own bytes, or
the match fails. -/
theorem Text.matchChar_of_isPlace {text : Text} {offset : Nat} (place : text.IsPlace offset)
    (test : Char → Bool) :
    (∃ c, text.matchChar (ε := ε) test offset = .reached (offset + c.utf8Size) ∧
        text.slice? offset (offset + c.utf8Size) = some [c]) ∨
      text.matchChar (ε := ε) test offset = .failed := by
  obtain ⟨rest, found⟩ := Text.isPlace_iff.mp place
  cases rest with
  | nil => exact .inr (by simp [Text.matchChar, found])
  | cons c rest =>
      cases passes : test c with
      | true => exact .inl ⟨c, by simp [Text.matchChar, found, passes],
          Text.slice?_of_rest?_eq_cons found⟩
      | false => exact .inr (by simp [Text.matchChar, found, passes])

/-- A character that is matched passes the test, and its sides are where the match
starts and ends. -/
theorem Text.exists_of_matchChar_eq_reached {text : Text} {test : Char → Bool}
    {offset stop : Nat} (reached : text.matchChar (ε := ε) test offset = .reached stop) :
    ∃ c, text.slice? offset stop = some [c] ∧ test c = true := by
  unfold matchChar at reached
  split at reached
  · cases reached
  · cases reached
  · rename_i c rest found
    split at reached
    · rename_i passes
      cases reached
      exact ⟨c, slice?_of_rest?_eq_cons found, passes⟩
    · cases reached

/-- At a place a word boundary takes no room, or the match fails. -/
theorem Text.matchWordBoundary_of_isPlace {text : Text} {offset : Nat}
    (place : text.IsPlace offset) :
    text.matchWordBoundary (ε := ε) offset = .reached offset ∨
      text.matchWordBoundary (ε := ε) offset = .failed := by
  obtain ⟨front, back, whole, sized⟩ := place
  have cut : text.split? offset = some (front, back) := Text.split?_eq_some_iff.mpr ⟨whole, sized⟩
  unfold Text.matchWordBoundary
  rw [cut]
  simp only
  split
  · exact .inl rfl
  · exact .inr rfl

/-- A word boundary ends where it starts. -/
theorem Text.eq_of_matchWordBoundary_eq_reached {text : Text} {offset stop : Nat}
    (reached : text.matchWordBoundary (ε := ε) offset = .reached stop) : offset = stop := by
  unfold matchWordBoundary at reached
  split at reached
  · cases reached
  · split at reached
    · cases reached
      rfl
    · cases reached

/-! ### Repetitions -/

/-- Words one after another that a repetition has gone through after `quantity`
earlier ones, when it counted them as `counted` in all. -/
def Rounds (language : List ParseTree → Prop) (bounds : Quantifier) (quantity counted : Nat)
    (word : List ParseTree) : Prop :=
  ∃ iterations : List (List ParseTree),
    word = iterations.flatten ∧ (∀ iteration ∈ iterations, language iteration) ∧
      (∀ max, bounds.max = some max → quantity ≤ max → quantity + iterations.length ≤ max) ∧
      (counted = quantity + iterations.length ∨
        counted = bounds.min ∧
          ∃ last, iterations.getLast? = some last ∧ ParseTree.tokensOfAll last = [])

namespace Rounds

variable {language : List ParseTree → Prop} {bounds : Quantifier} {quantity counted : Nat}

theorem none (language : List ParseTree → Prop) (bounds : Quantifier) (quantity : Nat) :
    Rounds language bounds quantity quantity [] :=
  ⟨[], rfl, by simp, by simp, .inl rfl⟩

/-- A repetition may go one more round where its bounds allow more. -/
theorem cons {first rest : List ParseTree} (more : bounds.allowsMore quantity)
    (inLanguage : language first) (rounds : Rounds language bounds (quantity + 1) counted rest) :
    Rounds language bounds quantity counted (first ++ rest) := by
  obtain ⟨iterations, rfl, all, most, counts⟩ := rounds
  refine ⟨first :: iterations, rfl, ?_, ?_, ?_⟩
  · simpa using ⟨inLanguage, all⟩
  · intro max bounded _
    simp only [Quantifier.allowsMore, bounded, decide_eq_true_eq] at more
    have := most max bounded more
    simp only [List.length_cons]
    omega
  · rcases counts with counts | ⟨counts, last, isLast, empty⟩
    · exact .inl (by rw [counts, List.length_cons]; omega)
    · exact .inr ⟨counts, last, by simp [List.getLast?_cons, isLast], empty⟩

/-- A round without tokens counts for the whole minimum. -/
theorem last {word : List ParseTree} (more : bounds.allowsMore quantity)
    (inLanguage : language word) (empty : ParseTree.tokensOfAll word = []) :
    Rounds language bounds quantity bounds.min word := by
  refine ⟨[word], by simp, by simpa using inLanguage, ?_, .inr ⟨rfl, word, rfl, empty⟩⟩
  intro max bounded _
  simp only [Quantifier.allowsMore, bounded, decide_eq_true_eq] at more
  exact more

/-- Rounds that count for the minimum are as many as the bounds permit. -/
theorem iterated {word : List ParseTree} (rounds : Rounds language bounds 0 counted word)
    (enough : bounds.min ≤ counted) : Iterated language bounds word := by
  obtain ⟨iterations, rfl, all, most, counts⟩ := rounds
  refine ⟨iterations, rfl, all, ?_, ?_⟩
  · intro max bounded
    have := most max bounded (Nat.zero_le _)
    omega
  · rcases counts with counts | ⟨_, last, isLast, empty⟩
    · exact .inl (by omega)
    · exact .inr ⟨last, isLast, empty⟩

end Rounds

section Repetition

variable {c : Contract ε σ} {setting : Setting ε σ} {language : List ParseTree → Prop}
  {attempt : Nat → Trace → σ → Walked ε σ} {bounds : Quantifier}

/-- A repetition that is given more attempts than there are bytes left uses none
but attempts that keep the contract, and ends before it runs out of them. -/
theorem repeatWithin_met (lawful : c.Lawful setting)
    (attempted : ∀ offset trace state, setting.text.IsPlace offset → c.holds state →
      c.Met setting.text language offset trace (attempt offset trace state)) :
    ∀ (attempts quantity offset : Nat) (trace : Trace) (state : σ),
      setting.text.size - offset < attempts → setting.text.IsPlace offset → c.holds state →
      c.Met setting.text
          (Rounds language bounds quantity
            (repeatWithin attempt bounds attempts quantity offset trace state).1)
          offset trace (repeatWithin attempt bounds attempts quantity offset trace state).2 ∧
        (repeatWithin attempt bounds attempts quantity offset trace state).2.outcome ≠ .failed := by
  -- Each attempt but the last goes on in the text, so there are always more
  -- attempts left than bytes, and they are never used up.
  intro attempts
  induction attempts with
  | zero =>
      intro _ _ _ _ few
      omega
  | succ attempts ih =>
      intro quantity offset trace state few place holds
      have stay : ∀ after : Walked ε σ, c.holds after.state → after.outcome = .reached offset →
          after.trace = trace →
          c.Met setting.text (Rounds language bounds quantity quantity) offset trace after :=
        fun after holds reached same => Contract.met_of_reached holds reached
          ⟨place, Nat.le_refl _, [], by simp [same], Rounds.none .., lawful.here place⟩
      cases more : bounds.allowsMore quantity with
      | false =>
          rw [repeatWithin_of_enough more]
          exact ⟨stay _ holds rfl rfl, by simp⟩
      | true =>
          have met := attempted offset trace state place holds
          cases ends : (attempt offset trace state).outcome with
          | reached stop =>
              have passage := met.reached stop ends
              by_cases empty : stop = offset
              · subst empty
                rw [repeatWithin_of_empty more ends]
                split
                · exact ⟨stay _ met.holds rfl rfl, by simp⟩
                · refine ⟨Contract.met_of_reached met.holds ends ?_, by simp [ends]⟩
                  obtain ⟨_, le, word, trees, inLanguage, spans⟩ := passage
                  exact ⟨place, le, word, trees, .last more inLanguage (lawful.tokenless spans),
                    spans⟩
              · rw [repeatWithin_of_reached more ends empty]
                have later := passage.le
                have inText := passage.place.le_size
                obtain ⟨rest, settled⟩ := ih (quantity + 1) stop (attempt offset trace state).trace
                  (attempt offset trace state).state (by omega) passage.place met.holds
                exact ⟨passage.met lawful (fun one two => Rounds.cons more) rest, settled⟩
          | failed =>
              rw [repeatWithin_of_failed more ends]
              exact ⟨stay _ met.holds rfl rfl, by simp⟩
          | raised | misplaced =>
              rw [repeatWithin_of_aborted more (by simp [ends]) (by simp [ends])]
              exact ⟨met.of_not_reached (by simp [ends]), by simp [ends]⟩

/-- Ending a repetition turns too few rounds into a failure. -/
theorem settleRepetition_met {kind : Kind} {text : Text} {offset quantity : Nat} {trace : Trace}
    {walked : Walked ε σ}
    (met : c.Met text (Rounds language bounds 0 quantity) offset trace walked) :
    c.Met text (Iterated language bounds) offset trace
      (settleRepetition kind bounds offset trace quantity walked) := by
  unfold settleRepetition
  split
  · rename_i stop ends
    obtain ⟨place, le, word, trees, rounds, spans⟩ := met.reached stop ends
    split
    · exact Contract.met_of_failed met.holds rfl
    · rename_i enough
      have passage : ∀ after : Trace, after.trees = walked.trace.trees →
          c.Passage text (Iterated language bounds) offset trace stop after :=
        fun after same => ⟨place, le, word, same.trans trees, rounds.iterated (by omega), spans⟩
      split
      · split
        · exact Contract.met_of_reached met.holds ends (passage _ rfl)
        · exact Contract.met_of_reached met.holds ends (passage _ rfl)
      · exact Contract.met_of_reached met.holds ends (passage _ rfl)
  · rename_i unreached
    exact met.of_not_reached unreached

end Repetition

/-! ### The walk of a sequence -/

section Walks

variable {c : Contract ε σ} {setting : Setting ε σ}

theorem Kind.walk_single_met (lawful : c.Lawful setting) {chars : CharClass} {offset : Nat}
    {trace : Trace} {state : σ} (allowed : c.meets (.single chars))
    (place : setting.text.IsPlace offset) (holds : c.holds state) :
    c.Met setting.text (Kind.single chars).Generates offset trace
      ((Kind.single chars).walk setting offset trace state) := by
  rw [Kind.walk]
  rcases Text.matchChar_of_isPlace (ε := ε) place chars.accepts with
    ⟨char, matched, between⟩ | failed
  · refine Contract.met_of_reached holds matched ⟨Text.isPlace_stop_of_slice? between,
      Text.le_of_slice? between, [], by simp, by simp [Kind.Generates], ?_⟩
    exact lawful.character allowed (.inl ⟨chars, rfl⟩) between
  · exact Contract.met_of_failed holds failed

theorem Kind.walk_wordBoundary_met (lawful : c.Lawful setting) {offset : Nat} {trace : Trace}
    {state : σ} (place : setting.text.IsPlace offset) (holds : c.holds state) :
    c.Met setting.text Kind.wordBoundary.Generates offset trace
      (Kind.wordBoundary.walk setting offset trace state) := by
  rw [Kind.walk]
  rcases Text.matchWordBoundary_of_isPlace (ε := ε) place with matched | failed
  · exact Contract.met_of_reached holds matched ⟨place, Nat.le_refl _, [], by simp,
      by simp [Kind.Generates], lawful.here place⟩
  · exact Contract.met_of_failed holds failed

/-- A negated set keeps the contract if the walk of its items does. -/
theorem Kind.walk_negated_met (lawful : c.Lawful setting) {items : List Node} {offset : Nat}
    {trace : Trace} {state : σ} {language : List ParseTree → Prop}
    (allowed : c.meets (.set items true)) (place : setting.text.IsPlace offset)
    (met : c.Met setting.text language offset trace
      (Node.walkAny setting items offset trace state)) :
    c.Met setting.text (Kind.set items true).Generates offset trace
      ((Kind.set items true).walk setting offset trace state) := by
  rw [Kind.walk_negated, Walked.negate]
  split
  · exact Contract.met_of_failed met.holds rfl
  · rename_i unmatched
    have same := Node.walkAny_tidy lawful.tidy offset trace items state unmatched
    rcases Text.matchChar_of_isPlace (ε := ε) place fun _ => true with
      ⟨char, matched, between⟩ | failed
    · refine Contract.met_of_reached met.holds matched ⟨Text.isPlace_stop_of_slice? between,
        Text.le_of_slice? between, [], by simp [same], by simp [Kind.Generates], ?_⟩
      exact lawful.character allowed (.inr ⟨items, rfl⟩) between
    · exact Contract.met_of_failed met.holds failed
  · rename_i unreached _
    exact met.of_not_reached unreached

mutual

/-- The walk of a kind keeps a lawful contract whose kinds it stays among. -/
theorem Kind.walk_met (lawful : c.Lawful setting) :
    ∀ (kind : Kind), c.meets kind → (∀ node ∈ kind.visit, c.meets node.kind) →
      ∀ offset trace state, setting.text.IsPlace offset → c.holds state →
        c.Met setting.text kind.Generates offset trace (kind.walk setting offset trace state)
  | .group _ body, _, inside, offset, trace, state, place, holds => by
      simpa only [Kind.walk, Kind.Generates] using
        Sequence.walk_met lawful body inside offset trace state place holds
  | .set items false, _, inside, offset, trace, state, place, holds => by
      simpa only [Kind.walk, Kind.Generates] using
        Node.walkAny_met lawful items inside offset trace state place holds
  | .set items true, allowed, inside, offset, trace, state, place, holds =>
      Kind.walk_negated_met lawful allowed place
        (Node.walkAny_met lawful items inside offset trace state place holds)
  | .single _, allowed, _, _, _, _, place, holds =>
      Kind.walk_single_met lawful allowed place holds
  | .wordBoundary, _, _, _, _, _, place, holds =>
      Kind.walk_wordBoundary_met lawful place holds
  | .reference _, allowed, _, _, _, _, place, holds => by
      simpa only [Kind.walk] using lawful.reference allowed place holds

theorem Node.walk_met (lawful : c.Lawful setting) :
    ∀ (node : Node), (∀ inner ∈ node.visit, c.meets inner.kind) →
      ∀ offset trace state, setting.text.IsPlace offset → c.holds state →
        c.Met setting.text node.Generates offset trace (node.walk setting offset trace state)
  | ⟨kind, quantifier⟩, inside, offset, trace, state, place, holds => by
      have allowed : c.meets kind := inside ⟨kind, quantifier⟩ (by simp [Node.visit])
      have below : ∀ node ∈ kind.visit, c.meets node.kind :=
        fun node mem => inside node (by simp [Node.visit, mem])
      simp only [Node.walk, Node.Generates]
      exact settleRepetition_met (repeatWithin_met lawful
        (fun offset trace state => Kind.walk_met lawful kind allowed below offset trace state)
        _ 0 offset trace state (Nat.lt_succ_of_le (lawful.enough offset)) place holds).1

/-- The walk of nodes one after another, but for the trace of a failure. -/
theorem Node.walkAll_met (lawful : c.Lawful setting) :
    ∀ (nodes : List Node), (∀ inner ∈ Node.visitAll nodes, c.meets inner.kind) →
      ∀ offset trace state, setting.text.IsPlace offset → c.holds state →
        c.Met setting.text (Node.AllGenerate nodes) offset trace
          (Node.walkAll setting nodes offset trace state)
  | [], _, offset, trace, state, place, holds => by
      rw [Node.walkAll]
      exact Contract.met_of_reached holds rfl
        ⟨place, Nat.le_refl _, [], by simp, by simp [Node.AllGenerate], lawful.here place⟩
  | node :: nodes, inside, offset, trace, state, place, holds => by
      have first : ∀ inner ∈ node.visit, c.meets inner.kind :=
        fun inner mem => inside inner (by simp [Node.visitAll, mem])
      have others : ∀ inner ∈ Node.visitAll nodes, c.meets inner.kind :=
        fun inner mem => inside inner (by simp [Node.visitAll, mem])
      rw [Node.walkAll_cons]
      apply (Node.walk_met lawful node first offset trace state place holds).andThen
      intro stop after state passage holds
      apply passage.met lawful ?_
        (Node.walkAll_met lawful nodes others stop after state passage.place holds)
      intro front back inFront inBack
      exact ⟨front, back, rfl, inFront, inBack⟩

theorem Node.walkAny_met (lawful : c.Lawful setting) :
    ∀ (nodes : List Node), (∀ inner ∈ Node.visitAll nodes, c.meets inner.kind) →
      ∀ offset trace state, setting.text.IsPlace offset → c.holds state →
        c.Met setting.text (Node.AnyGenerates nodes) offset trace
          (Node.walkAny setting nodes offset trace state)
  | [], _, _, _, _, _, holds => by
      rw [Node.walkAny]
      exact Contract.met_of_failed holds rfl
  | ⟨kind, quantifier⟩ :: nodes, inside, offset, trace, state, place, holds => by
      have allowed : c.meets kind :=
        inside ⟨kind, quantifier⟩ (by simp [Node.visitAll, Node.visit])
      have below : ∀ node ∈ kind.visit, c.meets node.kind :=
        fun node mem => inside node (by simp [Node.visitAll, Node.visit, mem])
      have others : ∀ inner ∈ Node.visitAll nodes, c.meets inner.kind :=
        fun inner mem => inside inner (by simp [Node.visitAll, mem])
      have met := Kind.walk_met lawful kind allowed below offset trace state place holds
      rw [Node.walkAny_cons]
      apply met.orElse (fun _ inKind => .inl inKind)
      intro failed
      rw [Kind.walk_tidy lawful.tidy offset trace kind state failed]
      exact (Node.walkAny_met lawful nodes others offset trace _ place met.holds).mono
        fun _ inOthers => .inr inOthers

/-- The walk of a sequence keeps a lawful contract whose kinds it stays among. -/
theorem Sequence.walk_met (lawful : c.Lawful setting) :
    ∀ (sequence : Sequence), (∀ inner ∈ sequence.visit, c.meets inner.kind) →
      ∀ offset trace state, setting.text.IsPlace offset → c.holds state →
        c.Met setting.text sequence.Generates offset trace
          (sequence.walk setting offset trace state)
  | .only nodes, inside, offset, trace, state, place, holds => by
      have met := Node.walkAll_met lawful nodes (by simpa only [Sequence.visit] using inside)
        offset trace state place holds
      rw [Sequence.walk_only]
      exact met.orElse (fun _ inAll => by simpa only [Sequence.Generates] using inAll)
        fun _ => Contract.met_of_failed met.holds rfl
  | .either nodes alternate, inside, offset, trace, state, place, holds => by
      have first : ∀ inner ∈ Node.visitAll nodes, c.meets inner.kind :=
        fun inner mem => inside inner (by simp [Sequence.visit, mem])
      have others : ∀ inner ∈ alternate.visit, c.meets inner.kind :=
        fun inner mem => inside inner (by simp [Sequence.visit, mem])
      have met := Node.walkAll_met lawful nodes first offset trace state place holds
      rw [Sequence.walk_either]
      apply met.orElse (fun _ inAll => .inl inAll)
      intro _
      exact (Sequence.walk_met lawful alternate others offset trace _ place met.holds).mono
        fun _ inAlternate => .inr inAlternate

end

end Walks

end TextGrammar
