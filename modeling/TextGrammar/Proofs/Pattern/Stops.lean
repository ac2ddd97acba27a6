import TextGrammar.Proofs.Parse.Transaction
import TextGrammar.Proofs.Pattern.Extent
import TextGrammar.Proofs.Walk.Renumbering
import TextGrammar.Proofs.Walk.Repetition

/-!
Where matches of patterns end.

In a pattern the end of a match depends on the text and the offset only, not on what
has been captured before. So it is a partial function from offsets to offsets
(`Sequence.stop?`), and the functions of nodes and sequences are put together from
those of their parts: nodes one after another compose, and an alternate is asked where
there is no match.
-/

namespace TextGrammar

/-- Where an attempt has matched up to. -/
def Outcome.stop? {ε : Type} : Outcome ε → Option Nat
  | .reached stop => some stop
  | _ => none

theorem Outcome.stop?_eq_some_iff {ε : Type} {outcome : Outcome ε} {stop : Nat} :
    outcome.stop? = some stop ↔ outcome = .reached stop := by
  cases outcome <;> simp [stop?]

/-- Where a match of the kind at an offset ends. -/
def Kind.stop? (text : Text) (kind : Kind) (offset : Nat) : Option Nat :=
  (kind.walk { text, resolve := Pattern.noReferences } offset {} ()).outcome.stop?

def Node.stop? (text : Text) (node : Node) (offset : Nat) : Option Nat :=
  (node.walk { text, resolve := Pattern.noReferences } offset {} ()).outcome.stop?

def Node.stopAll? (text : Text) (nodes : List Node) (offset : Nat) : Option Nat :=
  (Node.walkAll { text, resolve := Pattern.noReferences } nodes offset {} ()).outcome.stop?

def Sequence.stop? (text : Text) (sequence : Sequence) (offset : Nat) : Option Nat :=
  (sequence.walk { text, resolve := Pattern.noReferences } offset {} ()).outcome.stop?

variable {text : Text} {offset stop : Nat}

/-! ### What has been captured is of no account -/

theorem Node.outcome_walk (node : Node) (trace : Trace) (state : Unit) :
    (node.walk { text, resolve := Pattern.noReferences } offset trace state).outcome =
      (node.walk { text, resolve := Pattern.noReferences } offset {} ()).outcome := by
  have replies := Pattern.replies_noReferences text
  rw [(node.walk_records replies.appends offset trace state).outcome,
    (node.walk_records replies.appends offset {} ()).outcome,
    node.emit_blind replies.blind offset trace {}]

theorem Node.outcome_walkAll (nodes : List Node) (trace : Trace) (state : Unit) :
    (Node.walkAll { text, resolve := Pattern.noReferences } nodes offset trace state).outcome =
      (Node.walkAll { text, resolve := Pattern.noReferences } nodes offset {} ()).outcome := by
  have replies := Pattern.replies_noReferences text
  rw [(Node.walkAll_adds replies.appends nodes offset trace state).outcome,
    (Node.walkAll_adds replies.appends nodes offset {} ()).outcome,
    Node.emitAll_blind replies.blind nodes offset trace {}]

/-! ### Walks in a text -/

theorem Kind.met_walk (kind : Kind) (place : text.IsPlace offset) :
    Pattern.contract.Met text kind.Generates offset {}
      (kind.walk { text, resolve := Pattern.noReferences } offset {} ()) :=
  kind.walk_met (Pattern.contract_lawful text) trivial (fun _ _ => trivial) offset {} () place
    trivial

theorem Node.met_walk (node : Node) (place : text.IsPlace offset) (trace : Trace) :
    Pattern.contract.Met text node.Generates offset trace
      (node.walk { text, resolve := Pattern.noReferences } offset trace ()) :=
  node.walk_met (Pattern.contract_lawful text) (fun _ _ => trivial) offset trace () place trivial

/-- A match of a kind ends at a place that is not before it. -/
theorem Kind.isPlace_of_stop? {kind : Kind} (place : text.IsPlace offset)
    (ends : kind.stop? text offset = some stop) : text.IsPlace stop ∧ offset ≤ stop := by
  have passage := (kind.met_walk place).reached stop (Outcome.stop?_eq_some_iff.mp ends)
  exact ⟨passage.place, passage.le⟩

/-! ### Parts and wholes -/

theorem Kind.stop?_group (number : Nat) (body : Sequence) :
    (Kind.group number body).stop? text offset = body.stop? text offset := by
  rw [stop?, Kind.walk, Sequence.stop?]

@[simp] theorem Node.stopAll?_nil : Node.stopAll? text [] offset = some offset := rfl

/-- Nodes one after another match where the first one does and the others do from there. -/
theorem Node.stopAll?_cons (node : Node) (nodes : List Node) :
    Node.stopAll? text (node :: nodes) offset =
      (node.stop? text offset).bind (Node.stopAll? text nodes) := by
  rw [stopAll?, stop?, Node.walkAll_cons]
  cases ends : (node.walk { text, resolve := Pattern.noReferences } offset {} ()).outcome with
  | reached stop =>
      rw [Walked.andThen_of_reached ends, Node.outcome_walkAll]
      rfl
  | failed | raised | misplaced =>
      rw [Walked.andThen_of_not_reached (by simp [ends]), ends]
      rfl

theorem Node.stopAll?_singleton (node : Node) :
    Node.stopAll? text [node] offset = node.stop? text offset := by
  rw [stopAll?_cons]
  cases node.stop? text offset <;> rfl

theorem Sequence.stop?_only (nodes : List Node) :
    (Sequence.only nodes).stop? text offset = Node.stopAll? text nodes offset := by
  rw [stop?, Sequence.walk_only, Node.stopAll?]
  cases ends : (Node.walkAll { text, resolve := Pattern.noReferences } nodes offset {}
    ()).outcome with
  | failed => rw [Walked.orElse_of_failed ends]
  | reached | raised | misplaced => rw [Walked.orElse_of_not_failed (by simp [ends]), ends]

/-- The alternate of nodes is asked where they don't match. -/
theorem Sequence.stop?_either (nodes : List Node) (alternate : Sequence)
    (place : text.IsPlace offset) :
    (Sequence.either nodes alternate).stop? text offset =
      (Node.stopAll? text nodes offset).or (alternate.stop? text offset) := by
  have placed := (Node.walkAll_met (Pattern.contract_lawful text) nodes (fun _ _ => trivial) offset
    {} () place trivial).placed
  rw [stop?, Sequence.walk_either, Node.stopAll?, stop?]
  cases ends : (Node.walkAll { text, resolve := Pattern.noReferences } nodes offset {}
    ()).outcome with
  | failed =>
      rw [Walked.orElse_of_failed ends]
      rfl
  | reached stop =>
      rw [Walked.orElse_of_not_failed (by simp [ends]), ends]
      rfl
  | raised error => exact error.elim
  | misplaced => exact absurd ends placed

/-- A sequence with another one added to its alternatives matches where it does, and
else where the other one does. -/
theorem Sequence.stop?_or (other : Sequence) (place : text.IsPlace offset) (sequence : Sequence) :
    (sequence.or other).stop? text offset =
      (sequence.stop? text offset).or (other.stop? text offset) := by
  cases sequence with
  | only nodes => rw [Sequence.or, stop?_either _ _ place, stop?_only]
  | either nodes alternate =>
      rw [Sequence.or, stop?_either _ _ place, stop?_either _ _ place,
        Sequence.stop?_or other place alternate, Option.or_assoc]

/-- The numbers of groups are of no account, either. -/
theorem Sequence.stop?_renumber (number : Nat → Nat) (sequence : Sequence) :
    (sequence.renumber number).stop? text offset = sequence.stop? text offset := by
  have heedless : ({ text, resolve := Pattern.noReferences } : Setting Empty Unit).Heedless :=
    fun _ _ _ _ _ trees => ⟨rfl, trees, rfl⟩
  unfold Sequence.stop?
  rw [(sequence.walk_renumber heedless offset {} {} () rfl).outcome]

/-! ### Repetitions -/

/-- A repetition is settled with what it has reached if that was often enough. -/
theorem stop?_settleRepetition {ε σ : Type} {kind : Kind} {bounds : Quantifier} {quantity : Nat}
    {entered : Trace} {walked : Walked ε σ} :
    (settleRepetition kind bounds offset entered quantity walked).outcome.stop? =
      if bounds.min ≤ quantity then walked.outcome.stop? else none := by
  unfold settleRepetition
  cases ends : walked.outcome with
  | reached stop =>
      by_cases enough : bounds.min ≤ quantity
      · simp only [if_pos enough, if_neg (Nat.not_lt.mpr enough)]
        split
        · split <;> simp only [ends]
        · simp only [ends]
      · simp only [if_neg enough, if_pos (Nat.lt_of_not_le enough)]
        rfl
  | failed | raised | misplaced =>
      simp only [ends]
      split <;> rfl

namespace Node

variable {kind : Kind} {quantifier : Option Quantifier} {bounds : Quantifier}

/-- What a node reaches in its repetition, if it matches often enough. -/
theorem stop?_eq (quantifier : Option Quantifier) (kind : Kind) (trace : Trace) :
    (⟨kind, quantifier⟩ : Node).stop? text offset =
      if (quantifier.getD .once).min ≤
          (repeatWithin (kind.walk { text, resolve := Pattern.noReferences })
            (quantifier.getD .once) (text.size - offset + 1) 0 offset trace ()).1 then
        (repeatWithin (kind.walk { text, resolve := Pattern.noReferences })
          (quantifier.getD .once) (text.size - offset + 1) 0 offset trace ()).2.outcome.stop?
      else none := by
  rw [stop?, ← outcome_walk _ trace (), Node.walk]
  exact stop?_settleRepetition

/-- A node that may not match at all matches the empty text. -/
theorem stop?_of_enough (ordered : (quantifier.getD .once).Ordered)
    (enough : (quantifier.getD .once).allowsMore 0 = false) :
    (⟨kind, quantifier⟩ : Node).stop? text offset = some offset := by
  have least : (quantifier.getD .once).min ≤ 0 := Nat.le_of_not_lt (ordered.not_lt enough)
  rw [stop?_eq quantifier kind {}, repeatWithin_of_enough enough, if_pos least]
  rfl

/-- A node whose kind matches the empty text does so, too. -/
theorem stop?_of_empty (ordered : (quantifier.getD .once).Ordered)
    (empty : kind.stop? text offset = some offset) :
    (⟨kind, quantifier⟩ : Node).stop? text offset = some offset := by
  cases more : (quantifier.getD .once).allowsMore 0 with
  | false => exact stop?_of_enough ordered more
  | true =>
      have reached := Outcome.stop?_eq_some_iff.mp empty
      rw [stop?_eq quantifier kind {}, repeatWithin_of_empty more reached]
      by_cases least : (quantifier.getD .once).min ≤ 0
      · simp only [if_pos least]
        rfl
      · simp only [if_neg least, if_pos (Nat.le_refl _)]
        exact empty

/-- A node whose kind doesn't match matches the empty text if it need not match. -/
theorem stop?_of_failed (place : text.IsPlace offset)
    (more : (quantifier.getD .once).allowsMore 0 = true)
    (fails : kind.stop? text offset = none) :
    (⟨kind, quantifier⟩ : Node).stop? text offset =
      if (quantifier.getD .once).min = 0 then some offset else none := by
  have failed :
      (kind.walk { text, resolve := Pattern.noReferences } offset {} ()).outcome = .failed := by
    cases ends : (kind.walk { text, resolve := Pattern.noReferences } offset {} ()).outcome with
    | reached stop => simp [Kind.stop?, ends, Outcome.stop?] at fails
    | failed => rfl
    | raised error => exact error.elim
    | misplaced => exact absurd ends (kind.met_walk place).placed
  rw [stop?_eq quantifier kind {}, repeatWithin_of_failed more failed]
  simp only [Nat.le_zero_eq]
  rfl

/-- A node whose kind matches more than the empty text goes on from there, under the
bounds that are left. -/
theorem stop?_of_advance {next : Nat} (place : text.IsPlace offset)
    (more : (quantifier.getD .once).allowsMore 0 = true)
    (advances : kind.stop? text offset = some next) (further : next ≠ offset) :
    (⟨kind, quantifier⟩ : Node).stop? text offset =
      (⟨kind, some (quantifier.getD .once).rest⟩ : Node).stop? text next := by
  obtain ⟨placeNext, le⟩ := Kind.isPlace_of_stop? place advances
  have reached := Outcome.stop?_eq_some_iff.mp advances
  have within := placeNext.le_size
  rw [stop?_eq quantifier kind {}, repeatWithin_of_reached more reached further]
  generalize (kind.walk { text, resolve := Pattern.noReferences } offset {} ()).trace = trace
  -- From the next offset on as many attempts are enough as there are bytes left, and one.
  have placed : (repeatWithin (kind.walk { text, resolve := Pattern.noReferences })
      (quantifier.getD .once).rest (text.size - next + 1) 0 next trace ()).2.outcome ≠
        .misplaced := by
    intro misplaced
    apply (met_walk ⟨kind, some (quantifier.getD .once).rest⟩ placeNext trace).placed
    rw [Node.walk]
    simp only [Option.getD_some]
    rw [settleRepetition_of_not_reached (by simp [misplaced]), misplaced]
  have le : text.size - next + 1 ≤ text.size - offset := by omega
  rw [repeatWithin_rest, repeatWithin_more (fun _ _ _ _ => rfl) placed le, stop?_eq _ kind trace]
  exact ite_congr (propext Nat.sub_le_iff_le_add.symm) (fun _ => rfl) (fun _ => rfl)

/-- A node matches as its kind does once, and then as the node does under the bounds
that are left; where the kind doesn't match, the node matches the empty text if it
need not match. -/
theorem stop?_rest (place : text.IsPlace offset) (ordered : (quantifier.getD .once).Ordered)
    (more : (quantifier.getD .once).allowsMore 0 = true) :
    (⟨kind, quantifier⟩ : Node).stop? text offset =
      match kind.stop? text offset with
      | some next => (⟨kind, some (quantifier.getD .once).rest⟩ : Node).stop? text next
      | none => if (quantifier.getD .once).min = 0 then some offset else none := by
  cases ends : kind.stop? text offset with
  | none => exact stop?_of_failed place more ends
  | some next =>
      by_cases empty : next = offset
      · subst empty
        have lowered : (Option.getD (some (quantifier.getD .once).rest) .once).Ordered :=
          ordered.rest
        rw [stop?_of_empty ordered ends]
        exact (stop?_of_empty lowered ends).symm
      · exact stop?_of_advance place more ends empty

/-- A node without a quantifier matches as its kind does. -/
theorem stop?_one (kind : Kind) (place : text.IsPlace offset) :
    (one kind).stop? text offset = kind.stop? text offset := by
  have ordered : (Option.getD none Quantifier.once).Ordered := by
    rintro _ ⟨⟩
    exact Nat.le_refl 1
  have lowered : (Option.getD (some Quantifier.once.rest) Quantifier.once).Ordered := ordered.rest
  rw [one, stop?_rest place ordered rfl]
  cases kind.stop? text offset with
  | none => rfl
  | some next => exact stop?_of_enough lowered rfl

end Node

/-! ### Matches -/

/-- Where a match of a pattern ends, at a place of the text. -/
theorem Pattern.map_stop_matchAt? (pattern : Pattern) (place : text.IsPlace offset) :
    (pattern.matchAt? text offset).map Match.stop = pattern.root.stop? text offset := by
  have isPlace : (text.rest? offset).isSome = true :=
    Option.isSome_iff_exists.mpr (Text.isPlace_iff.mp place)
  unfold matchAt? walk Sequence.stop?
  simp only [if_pos isPlace]
  cases (pattern.root.walk { text, resolve := Pattern.noReferences } offset {} ()).outcome <;> rfl

end TextGrammar
