import TextGrammar.Proofs.Walk.Oblivious

/-!
Groups and sets that could be left out.

A group that is matched once is walked like its nodes, and a set under a quantifier like a
group under the quantifier that has an alternative for every item. The two walks end alike,
ask for the same references and leave the same trees, and the captures of one have the
capture of the group more, if it has matched (`Sequence.walk_grouped`,
`Node.walk_spelledOut`).
-/

namespace TextGrammar

variable {ε σ : Type}

/-! ### Nodes one after another -/

theorem Walked.andThen_andThen (walked : Walked ε σ) (next later : Nat → Trace → σ → Walked ε σ) :
    (walked.andThen next).andThen later =
      walked.andThen fun stop trace state => (next stop trace state).andThen later := by
  obtain ⟨outcome, trace, state⟩ := walked
  cases outcome <;> rfl

theorem Walked.orElse_orElse_failed (walked : Walked ε σ) (entered : Trace)
    (other : Trace → σ → Walked ε σ) :
    (walked.orElse fun _ state => ⟨.failed, entered, state⟩).orElse other =
      walked.orElse fun _ state => other entered state := by
  obtain ⟨outcome, trace, state⟩ := walked
  cases outcome <;> rfl

namespace Sequence

/-- Nodes, with a sequence to try instead if there is one. -/
def ofNodes (nodes : List Node) : Option Sequence → Sequence
  | none => .only nodes
  | some alternate => .either nodes alternate

/-- Alternatives of one node each. -/
def choice (first : Node) : List Node → Sequence
  | [] => .only [first]
  | second :: others => .either [first] (choice second others)

end Sequence

/-- A node that is matched once and is no group. -/
structure Node.IsPlain (node : Node) : Prop where
  once : node.bounds = .once
  ungrouped : node.kind.group? = none

section Equations

variable (setting : Setting ε σ) (offset : Nat) (trace : Trace) (state : σ)

theorem Node.walkAll_append (front back : List Node) :
    Node.walkAll setting (front ++ back) offset trace state =
      (Node.walkAll setting front offset trace state).andThen (Node.walkAll setting back) := by
  induction front generalizing offset trace state with
  | nil =>
      rw [Node.walkAll]
      rfl
  | cons node front ih =>
      rw [List.cons_append, Node.walkAll_cons, Node.walkAll_cons, Walked.andThen_andThen]
      congr 1
      funext stop trace state
      exact ih stop trace state

/-- The sequence to try instead begins with the trace from before, as does the failure
where there is none. -/
theorem Sequence.walk_ofNodes (nodes : List Node) (alternate : Option Sequence) :
    (Sequence.ofNodes nodes alternate).walk setting offset trace state =
      (Node.walkAll setting nodes offset trace state).orElse fun _ state =>
        alternate.elim ⟨.failed, trace, state⟩ fun other =>
          other.walk setting offset trace state := by
  cases alternate with
  | none => exact Sequence.walk_only setting offset trace state nodes
  | some other => exact Sequence.walk_either setting offset trace state nodes other

variable {setting offset trace state}

/-- What is repeated once is attempted once. -/
theorem repeatWithin_once (attempt : Nat → Trace → σ → Walked ε σ) (attempts : Nat) :
    repeatWithin attempt .once (attempts + 1) 0 offset trace state =
      match (attempt offset trace state).outcome with
      | .reached _ => (1, attempt offset trace state)
      | .failed => (0, ⟨.reached offset, trace, (attempt offset trace state).state⟩)
      | _ => (0, attempt offset trace state) := by
  have more : Quantifier.once.allowsMore 0 = true := rfl
  have enough : Quantifier.once.allowsMore 1 = false := rfl
  cases ends : (attempt offset trace state).outcome with
  | reached stop =>
      by_cases empty : stop = offset
      · subst empty
        rw [repeatWithin_of_empty more ends]
        rfl
      · rw [repeatWithin_of_reached more ends empty, repeatWithin_of_enough enough]
        simp only [← ends]
  | failed => exact repeatWithin_of_failed more ends attempts
  | raised | misplaced =>
      exact repeatWithin_of_aborted more (by simp [ends]) (by simp [ends]) attempts

/-- A plain node is walked like its kind, but takes its trace back. -/
theorem Node.walk_of_isPlain {node : Node} (plain : node.IsPlain) :
    node.walk setting offset trace state =
      (node.kind.walk setting offset trace state).orElse fun _ state =>
        ⟨.failed, trace, state⟩ := by
  obtain ⟨kind, quantifier⟩ := node
  obtain ⟨once, ungrouped⟩ := plain
  simp only [Node.bounds, Node.quantifier, Node.kind] at once ungrouped ⊢
  rw [Node.walk]
  simp only [once, repeatWithin_once]
  obtain ⟨outcome, after, later⟩ := kind.walk setting offset trace state
  cases outcome with
  | reached stop =>
      have enough : ¬ 1 < Quantifier.once.min := Nat.lt_irrefl 1
      simp only [settleRepetition, if_neg enough, ungrouped]
      rfl
  | failed | raised | misplaced => rfl

/-- A group that is matched once is walked like its body, and recorded. -/
theorem Node.walk_group (number : Nat) (body : Sequence) :
    (Node.one (.group number body)).walk setting offset trace state =
      (body.walk setting offset trace state).andThen fun stop trace state =>
        ⟨.reached stop, trace.addCapture ⟨number, offset, stop⟩, state⟩ := by
  have tidy := body.walk_tidy setting offset trace state
  rw [Node.one, Node.walk]
  simp only [Option.getD_none, repeatWithin_once, Kind.walk]
  generalize body.walk setting offset trace state = walked at tidy ⊢
  obtain ⟨outcome, after, later⟩ := walked
  cases outcome with
  | reached stop => rfl
  | failed =>
      obtain rfl : after = trace := tidy rfl
      rfl
  | raised | misplaced => rfl

/-- A sequence of one plain node is walked like the kind of the node. -/
theorem Sequence.walk_ofNodes_singleton {node : Node} (plain : node.IsPlain)
    (alternate : Option Sequence) :
    (Sequence.ofNodes [node] alternate).walk setting offset trace state =
      (node.kind.walk setting offset trace state).orElse fun _ state =>
        alternate.elim ⟨.failed, trace, state⟩ fun other =>
          other.walk setting offset trace state := by
  have alone : Node.walkAll setting [node] offset trace state =
      node.walk setting offset trace state := by
    rw [Node.walkAll_cons]
    obtain ⟨outcome, after, later⟩ := node.walk setting offset trace state
    cases outcome with
    | reached stop => simp only [Walked.andThen, Node.walkAll]
    | failed | raised | misplaced => rfl
  rw [Sequence.walk_ofNodes, alone, Node.walk_of_isPlain plain, Walked.orElse_orElse_failed]

end Equations

/-! ### Captures of one group more -/

/-- The same trees, and the same captures but perhaps for one more of a group. -/
def Trace.CapturesMore (number : Nat) (trace trace' : Trace) : Prop :=
  trace'.trees = trace.trees ∧
    (trace'.captures = trace.captures ∨ ∃ later earlier start stop,
      trace.captures = later ++ earlier ∧
        trace'.captures = later ++ ⟨number, start, stop⟩ :: earlier)

/-- Two walks that are the same, but that the second one may have captured a group once
more. -/
structure Walked.CapturesMore (number : Nat) (walked walked' : Walked ε σ) : Prop where
  outcome : walked'.outcome = walked.outcome
  state : walked'.state = walked.state
  trace : walked.trace.CapturesMore number walked'.trace

namespace Trace

theorem CapturesMore.refl (number : Nat) (trace : Trace) : trace.CapturesMore number trace :=
  ⟨rfl, .inl rfl⟩

theorem framed_capturesMore (number : Nat) : Framed (CapturesMore number) := by
  rintro trace trace' output ⟨trees, same | ⟨later, earlier, start, stop, before, more⟩⟩
  · exact ⟨by simp only [extend, trees], .inl (by simp only [extend, same])⟩
  · refine ⟨by simp only [extend, trees], .inr ⟨output.captures.reverse ++ later, earlier, start,
      stop, ?_, ?_⟩⟩
    · simp only [extend, before, List.append_assoc]
    · simp only [extend, more, List.append_assoc]

end Trace

/-- Walks that concur and take their traces back when they fail are the same but for the
captures. -/
theorem Walked.Concurs.capturesMore {number : Nat} {walked walked' : Walked ε σ} {entered : Trace}
    (concurs : walked.Concurs (Trace.CapturesMore number) walked') (tidy : walked.Tidy entered)
    (tidy' : walked'.Tidy entered) : walked.CapturesMore number walked' :=
  ⟨concurs.outcome, concurs.state, concurs.near_of_tidy tidy tidy' (.refl number entered)⟩

/-- Traces that are near each other in one sense are so in another one, even if the
second trace captures a group more. -/
structure Absorbs (number : Nat) (near near' : Trace → Trace → Prop) : Prop where
  weaker : ∀ {trace trace'}, near trace trace' → near' trace trace'
  captured : ∀ {trace trace'} start stop, near trace trace' →
    near' trace (trace'.addCapture ⟨number, start, stop⟩)

theorem absorbs_capturesMore (number : Nat) : Absorbs number Eq (Trace.CapturesMore number) where
  weaker := by
    rintro trace _ rfl
    exact .refl number trace
  captured := by
    rintro trace _ start stop rfl
    exact ⟨rfl, .inr ⟨[], trace.captures, start, stop, rfl, rfl⟩⟩

/-! ### Groups -/

section Groups

variable {near near' : Trace → Trace → Prop} {setting : Setting ε σ} {number : Nat}
  {front nodes : List Node} {offset : Nat} {trace trace' : Trace} {state : σ}

/-- Nodes concur with a group of nodes that they concur with, if its capture is of no
account. -/
theorem Node.walkAll_concurs_group
    (concurs : (Node.walkAll setting front offset trace state).Concurs near
      (Node.walkAll setting nodes offset trace' state))
    (absorbs : Absorbs number near near') :
    (Node.walkAll setting front offset trace state).Concurs near'
      ((Node.one (.group number (.only nodes))).walk setting offset trace' state) := by
  rw [Node.walk_group, Sequence.walk_only]
  generalize Node.walkAll setting front offset trace state = walked at concurs ⊢
  generalize Node.walkAll setting nodes offset trace' state = walked' at concurs ⊢
  obtain ⟨outcome, after, later⟩ := walked
  obtain ⟨outcome', after', later'⟩ := walked'
  obtain ⟨rfl, rfl, traces⟩ := concurs
  cases outcome' with
  | reached stop => exact ⟨rfl, rfl, fun unfailed => absorbs.captured offset stop (traces unfailed)⟩
  | failed => exact ⟨rfl, rfl, fun unfailed => absurd rfl unfailed⟩
  | raised | misplaced => exact ⟨rfl, rfl, fun unfailed => absorbs.weaker (traces unfailed)⟩

/-- Sequences concur if their nodes do, and take their traces back. -/
theorem Sequence.walk_ofNodes_concurs (oblivious : setting.Oblivious) (framed : Framed near)
    (alternate : Option Sequence)
    (concurs : (Node.walkAll setting front offset trace state).Concurs near
      (Node.walkAll setting nodes offset trace' state)) (here : near trace trace') :
    ((Sequence.ofNodes front alternate).walk setting offset trace state).Concurs near
      ((Sequence.ofNodes nodes alternate).walk setting offset trace' state) := by
  rw [Sequence.walk_ofNodes, Sequence.walk_ofNodes]
  apply concurs.orElse
  intro _
  cases alternate with
  | none => exact ⟨rfl, rfl, fun unfailed => absurd rfl unfailed⟩
  | some other => exact (other.walk_oblivious oblivious offset _).concurs framed here

/-- Nodes concur with the same nodes of which some are put in a group. -/
theorem Node.walkAll_grouped (oblivious : setting.Oblivious) (number : Nat)
    (front nodes back : List Node) (offset : Nat) (trace : Trace) (state : σ) :
    (Node.walkAll setting (front ++ nodes ++ back) offset trace state).Concurs
      (Trace.CapturesMore number)
      (Node.walkAll setting (front ++ .one (.group number (.only nodes)) :: back) offset trace
        state) := by
  have absorbs := absorbs_capturesMore number
  rw [List.append_assoc, Node.walkAll_append, Node.walkAll_append]
  apply Walked.Concurs.andThen (.refl (fun _ => rfl) _) absorbs.weaker
  rintro stop state trace _ rfl
  -- Behind the group the two traces differ by its capture, which nothing there looks at.
  have inside := Node.walkAll_concurs_group (.refl (fun _ => rfl)
    (Node.walkAll setting nodes stop trace state)) absorbs
  rw [Node.walkAll_append, Node.walkAll_cons]
  apply inside.andThen id
  intro stop state trace trace' more
  exact (Node.walkAll_oblivious oblivious back stop state).concurs
    (Trace.framed_capturesMore number) more

/-- A group that is matched once is of no account but for its capture. -/
theorem Sequence.walk_grouped (oblivious : setting.Oblivious) (number : Nat)
    (front nodes back : List Node) (alternate : Option Sequence) (offset : Nat) (trace : Trace)
    (state : σ) :
    ((Sequence.ofNodes (front ++ nodes ++ back) alternate).walk setting offset trace
      state).CapturesMore number
        ((Sequence.ofNodes (front ++ .one (.group number (.only nodes)) :: back)
          alternate).walk setting offset trace state) := by
  have concurs := Sequence.walk_ofNodes_concurs oblivious (Trace.framed_capturesMore number)
    alternate
    (Node.walkAll_grouped oblivious number front nodes back offset trace state)
    (.refl number trace)
  exact concurs.capturesMore (Sequence.walk_tidy setting offset trace _ state)
    (Sequence.walk_tidy setting offset trace _ state)

end Groups

/-! ### Sets -/

section Sets

variable {near near' : Trace → Trace → Prop} {setting : Setting ε σ}

/-- What a kind has left behind where it has failed is of no account. -/
def Setting.Forgets (setting : Setting ε σ) (near : Trace → Trace → Prop) : Prop :=
  ∀ (kind : Kind) offset trace trace' state, near trace trace' →
    (kind.walk setting offset trace state).outcome = .failed →
      near (kind.walk setting offset trace state).trace trace'

/-- The first item of a set and those after it concur with an alternative of one node and
a sequence to try instead. The set goes on with what the item has left behind where it has
failed, and the sequence doesn't. -/
theorem Node.walkAny_cons_concurs (oblivious : setting.Oblivious) (framed : Framed near)
    (forgets : setting.Forgets near) {first : Node} {others : List Node} (plain : first.IsPlain)
    (alternate : Option Sequence) {offset : Nat}
    (rest : ∀ state {trace trace'}, near trace trace' →
      (Node.walkAny setting others offset trace state).Concurs near
        (alternate.elim ⟨.failed, trace', state⟩ fun other =>
          other.walk setting offset trace' state))
    (state : σ) {trace trace' : Trace} (here : near trace trace') :
    (Node.walkAny setting (first :: others) offset trace state).Concurs near
      ((Sequence.ofNodes [first] alternate).walk setting offset trace' state) := by
  obtain ⟨kind, quantifier⟩ := first
  rw [Sequence.walk_ofNodes_singleton plain, Node.walkAny_cons]
  have attempt := kind.walk_oblivious oblivious offset state
  apply (attempt.concurs framed here).orElse
  intro failed
  exact rest _ (forgets kind offset trace trace' state here failed)

/-- The items of a set concur with the alternatives that they are one by one. -/
theorem Node.walkAny_concurs_choice (oblivious : setting.Oblivious) (framed : Framed near)
    (forgets : setting.Forgets near) (offset : Nat) (first : Node) (others : List Node)
    (plain : ∀ item ∈ first :: others, item.IsPlain) (state : σ)
    {trace trace' : Trace} (here : near trace trace') :
    (Node.walkAny setting (first :: others) offset trace state).Concurs near
      ((Sequence.choice first others).walk setting offset trace' state) := by
  induction others generalizing first state trace trace' with
  | nil =>
      apply Node.walkAny_cons_concurs oblivious framed forgets (plain first List.mem_cons_self) none
        _ state here
      intro state trace trace' _
      rw [Node.walkAny]
      exact ⟨rfl, rfl, fun unfailed => absurd rfl unfailed⟩
  | cons second others ih =>
      apply Node.walkAny_cons_concurs oblivious framed forgets (plain first List.mem_cons_self)
        (some (.choice second others)) _ state here
      intro state trace trace' here
      exact ih second (fun item mem => plain item (List.mem_cons_of_mem _ mem)) state here

/-- A set concurs with the group that spells it out, under the same quantifier. -/
theorem Node.walk_concurs_group {first : Node} {others : List Node} {number : Nat}
    (oblivious : setting.Oblivious) (framed : Framed near) (forgets : setting.Forgets near)
    (same : ∀ trace, near trace trace) (absorbs : Absorbs number near near')
    (plain : ∀ item ∈ first :: others, item.IsPlain)
    (quantifier : Option Quantifier) (offset : Nat) (trace : Trace) (state : σ) :
    (Node.walk setting ⟨.set (first :: others) false, quantifier⟩ offset trace state).Concurs near'
      (Node.walk setting ⟨.group number (.choice first others), quantifier⟩ offset trace
        state) := by
  have attempted : ∀ offset state {trace trace'}, near trace trace' →
      ((Kind.set (first :: others) false).walk setting offset trace state).Concurs near
        ((Kind.group number (.choice first others)).walk setting offset trace' state) := by
    intro offset state trace trace' here
    rw [Kind.walk, Kind.walk]
    exact Node.walkAny_concurs_choice oblivious framed forgets offset first others plain state here
  exact Node.walk_concurs quantifier attempted absorbs.weaker absorbs.captured offset state
    (same trace)

/-- A set ends like the group that spells it out, and leaves the resolver in the same
state. -/
theorem Node.walk_spelledOut_ends (oblivious : setting.Oblivious) (number : Nat) {first : Node}
    {others : List Node}
    (plain : ∀ item ∈ first :: others, item.IsPlain)
    (quantifier : Option Quantifier) (offset : Nat) (trace : Trace) (state : σ) :
    (Node.walk setting ⟨.set (first :: others) false, quantifier⟩ offset trace state).Concurs
      (fun _ _ => True)
      (Node.walk setting ⟨.group number (.choice first others), quantifier⟩ offset trace
        state) := by
  have absorbs : Absorbs number (fun _ _ => True) (fun _ _ => True) :=
    ⟨fun _ => trivial, fun _ _ _ => trivial⟩
  exact Node.walk_concurs_group oblivious (fun _ _ _ _ => trivial) (fun _ _ _ _ _ _ _ => trivial)
    (fun _ => trivial) absorbs plain quantifier offset trace state

/-- A set is walked like the group that spells it out but for the captures, if a
reference that fails adds nothing to the trace. -/
theorem Node.walk_spelledOut (oblivious : setting.Oblivious) (tidy : setting.Tidy) (number : Nat)
    {first : Node} {others : List Node}
    (plain : ∀ item ∈ first :: others, item.IsPlain)
    (quantifier : Option Quantifier) (offset : Nat) (trace : Trace) (state : σ) :
    (Node.walk setting ⟨.set (first :: others) false, quantifier⟩ offset trace
      state).CapturesMore number
        (Node.walk setting ⟨.group number (.choice first others), quantifier⟩ offset trace
          state) := by
  have framed : Framed (Eq : Trace → Trace → Prop) := by
    rintro trace _ output rfl
    rfl
  have forgets : setting.Forgets Eq := by
    rintro kind offset trace _ state rfl failed
    exact kind.walk_tidy tidy offset trace state failed
  have concurs := Node.walk_concurs_group oblivious framed forgets (fun _ => rfl)
    (absorbs_capturesMore number) plain quantifier offset trace state
  exact concurs.capturesMore (Node.walk_tidy _ offset trace state)
    (Node.walk_tidy _ offset trace state)

end Sets

end TextGrammar
