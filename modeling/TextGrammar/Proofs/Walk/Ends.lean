import TextGrammar.Proofs.Walk.Calls
import TextGrammar.Proofs.Walk.Persistence

/-!
How the walks inside a walk end.

`Activation.walk` is the end of a walk that is begun, whatever it is asked to
match. What references leave true it leaves true (`Activation.walk_keeps`), be it only
those that it reaches (`Activation.walk_keeps_of_reaches`), and what they leave true of
a walk that it begins is true of it (`Activation.Calls.keeps`). A walk that has what a
contract asks for keeps it up to its end (`Activation.Sound.met`), and with it stays in
the text (`Activation.Sound.inside`). No walk that it begins starts before it
(`Activation.Sound.offset_le`).
-/

namespace TextGrammar

variable {ε σ : Type}

/-- The words that may be recorded by a walk which is asked to match a task. -/
def Task.Generates : Task → List ParseTree → Prop
  | .sequence whole => whole.Generates
  | .all nodes => Node.AllGenerate nodes
  | .any nodes => Node.AnyGenerates nodes
  | .node inner => inner.Generates
  | .kind inner => inner.Generates

namespace Activation

/-- The end of a walk that is begun. -/
def walk (setting : Setting ε σ) : Activation σ → Walked ε σ
  | ⟨.sequence sequence, offset, trace, state⟩ => sequence.walk setting offset trace state
  | ⟨.all nodes, offset, trace, state⟩ => Node.walkAll setting nodes offset trace state
  | ⟨.any nodes, offset, trace, state⟩ => Node.walkAny setting nodes offset trace state
  | ⟨.node node, offset, trace, state⟩ => node.walk setting offset trace state
  | ⟨.kind kind, offset, trace, state⟩ => kind.walk setting offset trace state

/-- A walk leaves true what references do, however it ends. -/
theorem walk_keeps {setting : Setting ε σ} {p : σ → Prop} (keeps : setting.Keeps p)
    (activation : Activation σ) (holds : p activation.state) :
    p (activation.walk setting).state := by
  obtain ⟨task, offset, trace, state⟩ := activation
  cases task with
  | sequence sequence => exact sequence.walk_keeps keeps offset trace state holds
  | all nodes => exact Node.walkAll_keeps keeps nodes offset trace state holds
  | any nodes => exact Node.walkAny_keeps keeps nodes offset trace state holds
  | node node => exact node.walk_keeps keeps offset trace state holds
  | kind kind => exact kind.walk_keeps keeps offset trace state holds

/-- A walk depends on its resolver by the references that it reaches only. -/
theorem walk_congr {setting : Setting ε σ} {resolve : Resolver ε σ} {origin : Activation σ}
    (agree : Agree setting resolve origin) :
    origin.walk setting = origin.walk { setting with resolve } := by
  obtain ⟨task, offset, trace, state⟩ := origin
  cases task with
  | sequence sequence => exact walk_sequence_congr sequence offset trace state agree
  | all nodes => exact walkAll_congr nodes offset trace state agree
  | any nodes => exact walkAny_congr nodes offset trace state agree
  | node node => exact walk_node_congr node offset trace state agree
  | kind kind => exact walk_kind_congr kind offset trace state agree

/-- What references leave true once it is true at the end of a walk is true at the end of
the walk that begins it. -/
theorem Calls.keeps {c : Contract ε σ} {setting : Setting ε σ} {p : σ → Prop}
    (lawful : c.Lawful setting) (keeps : setting.Keeps p) {caller callee : Activation σ}
    (sound : caller.Sound c setting) (calls : Calls setting caller callee)
    (holds : p (callee.walk setting).state) : p (caller.walk setting).state := by
  cases calls with
  | @nodes sequence offset trace state =>
      cases sequence with
      | only nodes =>
          rw [walk, Sequence.walk_only]
          exact Walked.keeps_orElse holds fun _ _ holds => holds
      | either nodes alternate =>
          rw [walk, Sequence.walk_either]
          exact Walked.keeps_orElse holds fun _ state =>
            alternate.walk_keeps keeps offset trace state
  | alternate failed =>
      rw [walk, Sequence.walk_either, Walked.orElse_of_failed failed]
      exact holds
  | @first node nodes offset trace state =>
      rw [walk, Node.walkAll_cons]
      exact Walked.keeps_andThen holds fun stop trace state =>
        Node.walkAll_keeps keeps nodes stop trace state
  | next reached =>
      rw [walk, Node.walkAll_cons, Walked.andThen_of_reached reached]
      exact holds
  | @item kind quantifier nodes offset trace state =>
      rw [walk, Node.walkAny_cons]
      exact Walked.keeps_orElse holds fun trace state =>
        Node.walkAny_keeps keeps nodes offset trace state
  | others failed =>
      rw [walk, Node.walkAny_cons, Walked.orElse_of_failed failed]
      exact holds
  | @attempt kind quantifier first quantity offset entered trace before state repeats more =>
      -- The repetition may make so many attempts that this one is among them.
      have among := Nat.le_trans (sound.attempts_le lawful (.attempt repeats more))
        (Nat.succ_le_succ (lawful.enough first))
      obtain ⟨spare, enough⟩ := Nat.exists_eq_add_of_le among
      have again := repeats.repeatWithin_eq (spare + 1)
      rw [show spare + 1 + quantity = quantity + 1 + spare by omega, ← enough] at again
      simp only [walk, Node.walk, settleRepetition_state]
      rw [again]
      exact repeatWithin_keeps_attempt more (fun offset trace state =>
        kind.walk_keeps keeps offset trace state) holds spare
  | body => exact holds
  | @items items negated offset trace state =>
      cases negated with
      | false => exact holds
      | true =>
          rw [walk, Kind.walk_negated, Walked.state_negate]
          exact holds

/-- What is true where a walk begins is true where it ends, if the references leave it
true that the walk reaches. -/
theorem walk_keeps_of_reaches {setting : Setting ε σ} {p : σ → Prop} {origin : Activation σ}
    (kept : ∀ name offset trace state,
      Reaches setting origin ⟨.kind (.reference name), offset, trace, state⟩ → p state →
      p (setting.resolve name offset trace state).state)
    (holds : p origin.state) : p (origin.walk setting).state := by
  classical
  -- The walk doesn't see that references it never reaches are made to fail.
  let resolve : Resolver ε σ := fun name offset trace state =>
    if Reaches setting origin ⟨.kind (.reference name), offset, trace, state⟩ then
      setting.resolve name offset trace state
    else ⟨.failed, trace, state⟩
  have keeps : Setting.Keeps { setting with resolve } p := by
    intro name offset trace state holds
    simp only [resolve]
    split
    · exact kept name offset trace state ‹_› holds
    · exact holds
  have agree : Agree setting resolve origin :=
    fun name offset trace state reaches => (if_pos reaches).symm
  rw [walk_congr agree]
  exact walk_keeps keeps origin holds

/-- A walk begins at a place of the text, ends at one that is not before it if it
matches, and never looks at the text from an offset that is none. -/
structure Inside (setting : Setting ε σ) (activation : Activation σ) : Prop where
  place : setting.text.IsPlace activation.offset
  reached : ∀ stop, (activation.walk setting).outcome = .reached stop →
    setting.text.IsPlace stop ∧ activation.offset ≤ stop
  placed : (activation.walk setting).outcome ≠ .misplaced

section Sound

variable {c : Contract ε σ} {setting : Setting ε σ}

/-- A walk that has what a contract asks for keeps the contract. -/
theorem Sound.met (lawful : c.Lawful setting) {activation : Activation σ}
    (sound : activation.Sound c setting) :
    c.Met setting.text activation.task.Generates activation.offset activation.trace
      (activation.walk setting) := by
  obtain ⟨task, offset, trace, state⟩ := activation
  have inside : ∀ nodes : List Node, (∀ node ∈ nodes, node.kind ∈ task.kinds) →
      ∀ node ∈ nodes, c.meets node.kind :=
    fun nodes among node mem => sound.meets _ (among node mem)
  cases task with
  | sequence sequence =>
      exact sequence.walk_met lawful (inside _ fun _ => List.mem_map_of_mem) offset trace state
        sound.place sound.holds
  | all nodes => exact sound.all_met lawful
  | any nodes =>
      exact Node.walkAny_met lawful nodes (inside _ fun _ => List.mem_map_of_mem) offset trace state
        sound.place sound.holds
  | node node => exact sound.node_met lawful
  | kind kind => exact sound.kind_met lawful

theorem Sound.inside (lawful : c.Lawful setting) {activation : Activation σ}
    (sound : activation.Sound c setting) : activation.Inside setting where
  place := sound.place
  reached := by
    intro stop reached
    have passage := (sound.met lawful).reached stop reached
    exact ⟨passage.place, passage.le⟩
  placed := (sound.met lawful).placed

/-- No walk begins before the walk that begins it. -/
theorem Sound.offset_le (lawful : c.Lawful setting) {caller callee : Activation σ}
    (sound : caller.Sound c setting) (calls : Calls setting caller callee) :
    caller.offset ≤ callee.offset := by
  cases calls with
  | @next node nodes offset stop trace state reached =>
      have begun : Calls setting ⟨.all (node :: nodes), offset, trace, state⟩
          ⟨.node node, offset, trace, state⟩ := .first
      have met := (sound.here begun rfl rfl).node_met lawful
      exact (met.reached stop reached).le
  | attempt repeats _ =>
      have := (sound.repeats lawful repeats).2
      simp only
      omega
  | nodes | alternate _ | first | item | others _ | body | items => exact Nat.le_refl _

end Sound

end Activation

end TextGrammar
