import TextGrammar.Proofs.Parse.Lockstep
import TextGrammar.Proofs.Parse.Names
import TextGrammar.Proofs.Pattern.Suffix

/-!
Whitespace in front of an input.

Where whitespace is skipped, a gap in front of an input changes nothing but offsets.
Productions that are entered before the first token are entered at the start, with
the gap or without it; whatever comes later is found behind the gap, as many bytes
further on. So offsets move by `behind`, and in everything else the two parses stay
in step (`Definition.parse_behind_gap`).
-/

namespace TextGrammar

/-! ### Offsets and trees behind a gap -/

/-- Where an offset comes to lie with a gap of so many bytes in front of the text. The
start of the text stays its start. -/
def behind (bytes offset : Nat) : Nat :=
  if offset = 0 then 0 else offset + bytes

/-- Every later place moves back by the gap. -/
theorem behind_of_pos {offset : Nat} (bytes : Nat) (later : 0 < offset) :
    behind bytes offset = offset + bytes :=
  if_neg (Nat.ne_of_gt later)

/-- Different places stay different. -/
theorem behind_inj {bytes one two : Nat} : behind bytes one = behind bytes two ↔ one = two := by
  unfold behind
  split <;> split <;> omega

mutual

/-- The tree with all of its tokens so many bytes further on. -/
def ParseTree.shift (bytes : Nat) : ParseTree → ParseTree
  | ⟨label, children, value, offset⟩ =>
      ⟨label, ParseTree.shiftAll bytes children, value, offset.map (· + bytes)⟩

def ParseTree.shiftAll (bytes : Nat) : List ParseTree → List ParseTree
  | [] => []
  | tree :: trees => tree.shift bytes :: ParseTree.shiftAll bytes trees

end

/-- Trees are shifted each for itself. -/
theorem ParseTree.shiftAll_eq_map (bytes : Nat) (trees : List ParseTree) :
    ParseTree.shiftAll bytes trees = trees.map (ParseTree.shift bytes) := by
  induction trees with
  | nil => rfl
  | cons tree trees ih => rw [ParseTree.shiftAll, ih, List.map_cons]

/-- A production is shifted by shifting its children. -/
theorem ParseTree.shift_production (bytes : Nat) (label : String) (children : List ParseTree) :
    (ParseTree.production label children).shift bytes =
      .production label (children.map (ParseTree.shift bytes)) := by
  rw [ParseTree.production, ParseTree.shift, ParseTree.shiftAll_eq_map]
  rfl

/-- A leaf is shifted to a later offset. -/
theorem ParseTree.shift_leaf (bytes : Nat) (label value : String) (offset : Nat) :
    (ParseTree.leaf label value offset).shift bytes = .leaf label value (offset + bytes) := by
  rw [ParseTree.leaf, ParseTree.shift, ParseTree.shiftAll]
  rfl

/-- What a production at an offset is once there is a gap in front of the text. -/
def ProductionAt.behind (bytes : Nat) (key : ProductionAt) : ProductionAt :=
  ⟨key.production, TextGrammar.behind bytes key.offset⟩

/-- Different keys stay different behind a gap. -/
theorem ProductionAt.behind_injective (bytes : Nat) :
    Function.Injective (ProductionAt.behind bytes) := by
  rintro ⟨name, offset⟩ ⟨name', offset'⟩ same
  obtain ⟨names, places⟩ := ProductionAt.mk.inj same
  exact congrArg₂ ProductionAt.mk names (behind_inj.mp places)

/-- What matching a production comes to once there is a gap in front of the text. -/
def outcomeBehind (bytes : Nat) (outcome : Remembered) : Remembered :=
  outcome.map fun result => (behind bytes result.1, result.2.shift bytes)

/-! ### Progress behind a gap -/

/-- The progress with a gap in front of the text. What was expected, if anything was,
is expected behind the gap. -/
structure Progress.Behind (bytes : Nat) (progress progress' : Progress) : Prop where
  active : progress'.active = progress.active.map (ProductionAt.behind bytes)
  refusals : progress'.refusals = progress.refusals
  expected : progress'.expected = progress.expected
  nothing : progress.expected = [] → progress.furthest = 0 ∧ progress'.furthest = 0
  something : progress.expected ≠ [] → progress'.furthest = progress.furthest + bytes
  memo : progress'.memo =
    progress.memo.map fun entry => (entry.1.behind bytes, outcomeBehind bytes entry.2)

namespace Progress

/-- What is expected first is expected wherever it is. -/
theorem expect_of_nothing {progress : Progress} (nothing : progress.expected = [])
    (start : progress.furthest = 0) (name : String) (offset : Nat) :
    progress.expect name offset = { progress with furthest := offset, expected := [name] } := by
  unfold expect
  split
  · rfl
  · rename_i near
    have here : offset = progress.furthest := by omega
    rw [if_pos ⟨here, by simp [nothing]⟩]
    simp [nothing, here]

namespace Behind

variable {bytes : Nat} {progress progress' : Progress}

/-- A parse behind a gap starts as any other. -/
theorem start (bytes : Nat) : Progress.Behind bytes {} {} where
  active := rfl
  refusals := rfl
  expected := rfl
  nothing := fun _ => ⟨rfl, rfl⟩
  something := fun some => absurd rfl some
  memo := rfl

/-- What is expected at an offset is expected as much later behind the gap. -/
theorem expect (behind : Progress.Behind bytes progress progress') (name : String)
    (offset : Nat) :
    Progress.Behind bytes (progress.expect name offset)
      (progress'.expect name (offset + bytes)) := by
  by_cases nothing : progress.expected = []
  · obtain ⟨start, start'⟩ := behind.nothing nothing
    rw [expect_of_nothing nothing start,
      expect_of_nothing (behind.expected.trans nothing) start']
    exact { behind with
      expected := rfl
      nothing := fun none => by cases none
      something := fun _ => rfl }
  · have moved := behind.something nothing
    unfold Progress.expect
    by_cases further : progress.furthest < offset
    · have further' : progress'.furthest < offset + bytes := by omega
      rw [if_pos further, if_pos further']
      exact { behind with
        expected := rfl
        nothing := fun none => by cases none
        something := fun _ => rfl }
    · have near : ¬ progress'.furthest < offset + bytes := by omega
      have here : offset + bytes = progress'.furthest ↔ offset = progress.furthest := by omega
      rw [if_neg further, if_neg near]
      simp only [here, behind.expected]
      split
      · exact { behind with
          expected := rfl
          nothing := fun none => by simp at none
          something := fun _ => moved }
      · exact behind

/-- What is remembered is remembered behind the gap. -/
theorem remembered?_eq (behind : Progress.Behind bytes progress progress') (key : ProductionAt) :
    progress'.remembered? (key.behind bytes) =
      (progress.remembered? key).map (outcomeBehind bytes) := by
  unfold remembered?
  rw [behind.memo]
  induction progress.memo with
  | nil => rfl
  | cons entry entries ih =>
      rw [List.map_cons, List.lookup_cons, List.lookup_cons, ih]
      by_cases same : key = entry.1
      · rw [same, beq_self_eq_true, beq_self_eq_true]
        rfl
      · have differ : key.behind bytes ≠ entry.1.behind bytes :=
          fun equal => same (ProductionAt.behind_injective bytes equal)
        rw [beq_false_of_ne same, beq_false_of_ne differ]

/-- What is remembered at an offset is remembered as much later behind the gap. -/
theorem remember (behind : Progress.Behind bytes progress progress') (key : ProductionAt)
    (outcome : Remembered) :
    Progress.Behind bytes (progress.remember key outcome)
      (progress'.remember (key.behind bytes) (outcomeBehind bytes outcome)) := by
  refine { behind with memo := ?_ }
  simp only [Progress.remember, behind.memo, List.map_cons, List.filter_map]
  congr 2
  refine List.filter_congr fun entry _ => ?_
  simp [Function.comp, (ProductionAt.behind_injective bytes).eq_iff]

end Behind

end Progress

/-! ### Text behind a gap -/

/-- White space is not part of a word. -/
theorem not_isWord_of_isWhitespace {c : Char} (whitespace : isWhitespace c = true) :
    isWord c = false := by
  simp only [isWhitespace, Bool.or_eq_true, decide_eq_true_eq] at whitespace
  rcases whitespace with ((((rfl | rfl) | rfl) | rfl) | rfl) | rfl <;> rfl

namespace Text

variable {gap : Text}

/-- No word ends with a gap. -/
theorem endsInWord_of_blank (blank : ∀ c ∈ gap, isWhitespace c = true) :
    gap.endsInWord = false := by
  unfold endsInWord
  cases last : gap.getLast? with
  | none => rfl
  | some c => exact not_isWord_of_isWhitespace (blank c (List.mem_of_getLast? last))

/-- A gap in front of a text doesn't change whether it ends in a word. -/
theorem endsInWord_gap_append (blank : ∀ c ∈ gap, isWhitespace c = true) (front : Text) :
    (gap ++ front).endsInWord = front.endsInWord := by
  rw [endsInWord_append]
  split
  · rename_i none
    rw [endsInWord_of_blank blank, none]
    rfl
  · rfl

/-- Skipping whitespace ends behind the gap where it ended without one. -/
theorem skipWhitespace?_behind (blank : ∀ c ∈ gap, isWhitespace c = true) (text : Text)
    (offset : Nat) : (gap ++ text).skipWhitespace? (behind gap.size offset) =
      (text.skipWhitespace? offset).map (· + gap.size) := by
  unfold skipWhitespace?
  cases offset with
  | zero =>
      rw [behind, if_pos rfl]
      simp only [rest?, Option.map_some]
      rw [List.takeWhile_append_of_pos blank, size_append]
      congr 1
      omega
  | succ offset =>
      rw [behind_of_pos _ (Nat.succ_pos offset), Nat.add_comm, rest?_append, Option.map_map]
      congr 1
      funext rest
      simp only [Function.comp_apply]
      omega

/-- What stands in a text stands behind a gap in front of it too. -/
theorem slice?_append_left {text value : Text} {start stop : Nat} (gap : Text)
    (between : text.slice? start stop = some value) :
    (gap ++ text).slice? (start + gap.size) (stop + gap.size) = some value := by
  obtain ⟨front, back, rfl, rfl, rfl⟩ := slice?_eq_some_iff.mp between
  exact slice?_eq_some_iff.mpr ⟨gap ++ front, back, by simp, by simp; omega, by omega⟩

end Text

/-! ### Parses behind a gap -/

namespace Grammar

/-- A parse of a text and a parse of the text behind a gap. -/
def leading (grammar : Grammar) (bytes : Nat) : Lockstep where
  meets := grammar.Meets
  place := fun offset offset' => offset' = behind bytes offset
  tree := ParseTree.shift bytes
  progress := Progress.Behind bytes
  error := fun error error' => ∃ name offset, error = .recursionLimit name offset ∧
    error' = .recursionLimit name (behind bytes offset)
  lost := fun _ => False
  lost' := fun _ => False

variable {grammar : Grammar} {bytes : Nat} {gap text : Text} {name : String} {offset : Nat}
  {trace trace' : Trace} {state state' : ParseState}

/-- Behind a gap an outcome is the same, only later. -/
theorem outcomes_leading_iff {outcome outcome' : Remembered} :
    (grammar.leading bytes).Outcomes outcome outcome' ↔ outcome' = outcomeBehind bytes outcome := by
  constructor
  · rintro (⟨place, tree⟩ | _)
    · exact congrArg some (Prod.ext place tree)
    · rfl
  · rintro rfl
    cases outcome with
    | none => exact .none
    | some result => exact .some ⟨rfl, rfl⟩

/-- A parse behind a gap goes the way it goes without it. -/
theorem steady_leading (grammar : Grammar) (bytes : Nat) (memoize : Bool) :
    (grammar.leading bytes).Steady memoize where
  active_iff := by
    rintro progress progress' name offset _ states rfl
    rw [states.active]
    exact (List.mem_map_of_injective (ProductionAt.behind_injective bytes)).symm
  refuse := fun states => { states with refusals := congrArg (· + 1) states.refusals }
  enter := by
    rintro progress progress' name offset _ states rfl
    exact { states with active := congrArg (_ :: ·) states.active }
  exit := by
    rintro before before' after after' name offset _ starts states rfl active active'
    refine { states with active := ?_ }
    rw [Progress.active_exit, Progress.active_exit, active, active', List.erase_cons_head,
      List.erase_cons_head, starts.active]
  refusals_iff := fun _ _ _ _ _ starts states => by rw [states.refusals, starts.refusals]
  recalls := by
    rintro _ progress progress' name offset _ states rfl
    have same := states.remembered?_eq ⟨name, offset⟩
    rw [ProductionAt.behind] at same
    rw [same]
    cases progress.remembered? ⟨name, offset⟩ with
    | none => exact .none
    | some outcome => exact .some (outcomes_leading_iff.mpr rfl)
  remember := by
    rintro _ progress progress' name offset _ outcome outcome' states rfl outcomes
    rw [outcomes_leading_iff.mp outcomes]
    exact states.remember ⟨name, offset⟩ outcome

/-- Tokens are matched alike behind a gap. -/
theorem alike_matchToken_leading (skips : grammar.options.skipWhitespace = true)
    (blank : ∀ c ∈ gap, isWhitespace c = true) (name : String) (pattern : Pattern) (offset : Nat)
    (traces : (grammar.leading gap.size).likeness.trace trace trace')
    (states : state.progress.Behind gap.size state'.progress) :
    (grammar.leading gap.size).likeness.Alike
      (grammar.matchToken text name pattern offset trace state)
      (grammar.matchToken (gap ++ text) name pattern (behind gap.size offset) trace' state') := by
  unfold matchToken tokenStart?
  rw [if_pos skips, if_pos skips, Text.skipWhitespace?_behind blank]
  cases skipped : text.skipWhitespace? offset with
  | none => exact .inl (.inl rfl)
  | some start =>
      obtain ⟨⟨_, before, _⟩, _⟩ := Text.skipWhitespace?_eq_some_iff.mp skipped
      obtain ⟨front, back, rfl, rfl⟩ := Text.isPlace_stop_of_slice? before
      have matched := pattern.matchAt?_rel (Text.endsInWord_gap_append blank front) back
      rw [Text.size_append, Nat.add_comm, List.append_assoc] at matched
      simp only [Option.map_some]
      generalize pattern.matchAt? (front ++ back) front.size = found at matched ⊢
      generalize pattern.matchAt? (gap ++ (front ++ back)) (front.size + gap.size) = found'
        at matched ⊢
      cases matched with
      | none => exact .inr (.inr ⟨.failed, traces, states.expect name front.size⟩)
      | @some m m' aligned =>
          obtain ⟨⟨_, starts, starts'⟩, ⟨_, stops, stops'⟩, _⟩ := aligned
          have moved : m'.stop = m.stop + gap.size := by omega
          have same : m'.isEmpty = m.isEmpty := decide_eq_decide.mpr (by omega)
          cases empty : m.isEmpty with
          | true =>
              rw [Option.filter_some_neg (by simp [empty]),
                Option.filter_some_neg (by simp [same, empty])]
              exact .inr (.inr ⟨.failed, traces, states.expect name front.size⟩)
          | false =>
              rw [Option.filter_some_pos (by simp [empty]),
                Option.filter_some_pos (by simp [same, empty])]
              -- A token isn't empty, so it doesn't end at the start, which wouldn't move.
              have later : 0 < m.stop := by
                have := of_decide_eq_false empty
                omega
              simp only [moved]
              cases between : Text.slice? (front ++ back) front.size m.stop with
              | none => exact .inl (.inl rfl)
              | some value =>
                  have between' := Text.slice?_append_left gap between
                  have traces : trace'.trees = trace.trees.map (ParseTree.shift gap.size) := traces
                  rw [between']
                  refine .inr (.inr ⟨.reached (behind_of_pos _ later).symm, ?_, states⟩)
                  simp only [Lockstep.likeness, leading, Trace.addTree, List.map_cons,
                    ParseTree.shift_leaf, traces]

/-- A parse of a text and a parse of the text behind a gap stay in step. -/
theorem lawful_leading (closed : grammar.Closed) (skips : grammar.options.skipWhitespace = true)
    (free : grammar.NegationFree) (blank : ∀ c ∈ gap, isWhitespace c = true) (text : Text) :
    (grammar.leading gap.size).Lawful grammar grammar text (gap ++ text) where
  memoize := rfl
  steady := grammar.steady_leading gap.size _
  place_iff := by
    rintro one _ two _ rfl rfl
    exact behind_inj.symm
  tree_production := ParseTree.shift_production gap.size
  limit := by
    rintro name offset _ rfl
    exact ⟨name, offset, rfl, rfl⟩
  character := by
    rintro kind offset offset' meets (⟨chars, rfl⟩ | ⟨items, rfl⟩)
    · exact meets.1.elim
    · exact absurd free (meets.2.2 rfl)
  boundary := fun meets => meets.1.elim
  declares := fun meets => meets.2.1 _ rfl
  token := by
    intro name pattern _ found
    refine ⟨pattern, found, ?_⟩
    rintro offset _ trace trace' state state' rfl traces states
    exact alike_matchToken_leading skips blank name pattern offset traces states
  production := by
    intro name expression _ noToken found
    refine ⟨noToken, expression, found, ?_⟩
    rintro room room' offset offset' state state' lawful place states _
    have traces : (grammar.leading gap.size).likeness.trace {} {} := rfl
    exact expression.root.walk_alike lawful (closed.meets found) offset offset' {} {}
      state state' place traces states

end Grammar

/-! ### What parses come to behind a gap -/

/-- What a parse comes to once there is a gap in front of the text: the same tree
further on, what was expected further on, or the limit at the same production. -/
inductive Verdict.Behind (bytes : Nat) : Verdict → Verdict → Prop where
  | tree {tree : ParseTree} : Behind bytes (.tree tree) (.tree (tree.shift bytes))
  | expected {names : List String} {furthest : Nat} : names ≠ [] →
      Behind bytes (.error (.parseError names furthest))
        (.error (.parseError names (furthest + bytes)))
  | nothing : Behind bytes (.error (.parseError [] 0)) (.error (.parseError [] 0))
  | limit {name : String} {offset : Nat} : Behind bytes (.error (.recursionLimit name offset))
      (.error (.recursionLimit name (behind bytes offset)))

namespace Grammar

variable {grammar : Grammar} {gap text : Text}

/-- The furthest failure is the same behind a gap, only later. -/
theorem behind_error {progress progress' : Progress} {bytes : Nat}
    (behind : progress.Behind bytes progress') :
    Verdict.Behind bytes (.error progress.error) (.error progress'.error) := by
  unfold Progress.error
  rw [behind.expected]
  by_cases nothing : progress.expected = []
  · obtain ⟨start, start'⟩ := behind.nothing nothing
    rw [nothing, start, start']
    exact .nothing
  · rw [behind.something nothing]
    exact .expected nothing

/-- Where the start has matched, the same is concluded behind the gap. -/
theorem behind_conclude (skips : grammar.options.skipWhitespace = true)
    (blank : ∀ c ∈ gap, isWhitespace c = true) {stop : Nat} (place : text.IsPlace stop)
    {trace trace' : Trace} {tree : ParseTree} {trees : List ParseTree}
    (recorded : trace.trees = tree :: trees)
    (shifted : trace'.trees = trace.trees.map (ParseTree.shift gap.size))
    {progress progress' : Progress} (behind : progress.Behind gap.size progress') :
    Verdict.Behind gap.size (grammar.conclude text stop trace progress)
      (grammar.conclude (gap ++ text) (TextGrammar.behind gap.size stop) trace' progress') := by
  obtain ⟨last, _, skipped, _⟩ := Text.exists_skipWhitespace? place
  have skipped' := Text.skipWhitespace?_behind blank text stop
  rw [skipped] at skipped'
  rw [recorded, List.map_cons] at shifted
  unfold conclude
  simp only [skips, and_true, skipped, skipped', recorded, shifted, Option.map_some,
    Text.size_append]
  cases grammar.options.complete with
  | false =>
      simp only [Bool.false_eq_true, if_false, false_and]
      exact .tree
  | true =>
      simp only [if_true, true_and]
      by_cases ends : last = text.size
      · rw [if_neg (not_not.mpr ends), if_neg (not_not.mpr (by omega))]
        exact .tree
      · rw [if_pos ends, if_pos (by omega)]
        exact behind_error (behind.expect "end of input" last)

/-- Behind a gap a parse comes to the same. -/
theorem parse_behind (closed : grammar.Closed) (skips : grammar.options.skipWhitespace = true)
    (free : grammar.NegationFree) (blank : ∀ c ∈ gap, isWhitespace c = true) (text : Text) :
    Verdict.Behind gap.size (grammar.parse text) (grammar.parse (gap ++ text)) := by
  have alike : (grammar.leading gap.size).likeness.Alike (grammar.walkStart text)
      (grammar.walkStart (gap ++ text)) := by
    rw [walkStart_eq, walkStart_eq]
    have lawful := lawful_leading closed skips free blank text
    exact (lawful.resolveWithin _ _ (fun less => absurd less (Nat.lt_irrefl _))
      (fun less => absurd less (Nat.lt_irrefl _))).reference closed.meets_start rfl rfl
        (.start gap.size)
  have met := walkStart_met closed text
  have close := alike.close met.placed nofun id (walkStart_met closed (gap ++ text)).placed nofun id
  have recorded : ∀ stop, (grammar.walkStart text).outcome = .reached stop →
      ∃ children, (grammar.walkStart text).trace.trees = [.production grammar.start children] :=
    fun _ => trees_of_walkStart closed
  unfold parse run
  simp only
  generalize grammar.walkStart text = walked at close met recorded ⊢
  generalize grammar.walkStart (gap ++ text) = walked' at close ⊢
  obtain ⟨outcome, trace, state⟩ := walked
  obtain ⟨outcome', trace', state'⟩ := walked'
  obtain ⟨ends, traces, states⟩ := close
  cases ends with
  | @reached stop _ moved =>
      cases moved
      obtain ⟨_, tree⟩ := recorded stop rfl
      exact behind_conclude skips blank (met.reached stop rfl).place tree traces states
  | failed => exact behind_error states
  | raised same =>
      obtain ⟨name, offset, rfl, rfl⟩ := same
      exact .limit

end Grammar

namespace Definition

/-- Where whitespace is skipped and no expression has a negated set, a gap of whitespace
in front of an input moves all offsets by as many bytes, and changes nothing else: a
parse comes to a tree, to what was expected or to the recursion limit as it does
without the gap. -/
theorem parse_behind_gap {definition : Definition} {grammar : Grammar}
    (compiled : definition.compile = .ok grammar) (skips : grammar.options.skipWhitespace = true)
    (free : grammar.NegationFree) {gap : Text} (blank : ∀ c ∈ gap, isWhitespace c = true)
    (text : Text) :
    Verdict.Behind gap.size (grammar.parse text) (grammar.parse (gap ++ text)) :=
  Grammar.parse_behind (closed_of_compile_eq_ok compiled) skips free blank text

/-- Lists of words. Two productions are entered before the first word is looked for. -/
def wordLists : Definition where
  start := "list"
  tokens := [⟨"word", "\\b[a-z]+\\b"⟩, ⟨"comma", ","⟩]
  productions := [⟨"list", "item (comma list)?"⟩, ⟨"item", "word+"⟩]

/-- A list of words, with a blank, a new line and a tab in front. -/
theorem wordLists_behind_gap :
    ∃ grammar tree, wordLists.compile = .ok grammar ∧ grammar.NegationFree ∧
      grammar.parse "a bc, d".toList = .tree tree ∧
      grammar.parse (" \n\t".toList ++ "a bc, d".toList) = .tree (tree.shift 3) := by
  obtain ⟨grammar, tree, compiled, parsed, free⟩ :=
    exists_of_yields wordLists "a bc, d".toList
      (show yields _ _ (fun grammar _ => decide grammar.NegationFree) = true by decide +kernel)
  have free := of_decide_eq_true free
  obtain ⟨_, _, _, _, _, options⟩ := compile_eq_ok_iff.mp compiled
  have blank : ∀ c ∈ " \n\t".toList, isWhitespace c = true := List.all_eq_true.mp (by decide)
  have behind := parse_behind_gap compiled (by rw [options]; rfl) free blank "a bc, d".toList
  rw [parsed] at behind
  refine ⟨grammar, tree, compiled, free, parsed, ?_⟩
  generalize grammar.parse (" \n\t".toList ++ "a bc, d".toList) = verdict at behind ⊢
  cases behind
  rfl

end Definition

end TextGrammar
