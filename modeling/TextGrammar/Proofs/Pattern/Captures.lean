import TextGrammar.Proofs.Pattern.Extent
import TextGrammar.Proofs.Pattern.WellFormed
import TextGrammar.Proofs.Walk.Assertion
import TextGrammar.Proofs.Walk.Ends

/-!
What matches of patterns capture.

While a pattern is walked, all that has been captured lies between the start of the
walk and where the walk stands (`Pattern.capturing`), however often a group has
captured something. So it lies within the match, and of each group one capture is
kept, in the order of the groups. That is true of every tree that may be a pattern,
be it compiled or not (`Pattern.matchAt?_wellFormed`).
-/

namespace TextGrammar

/-! ### Captures in order -/

namespace Capture

variable {capture other : Capture} {captures : List Capture}

theorem mem_of_mem_record (mem : other ∈ capture.record captures) :
    other = capture ∨ other ∈ captures := by
  fun_induction record capture captures with
  | case1 => exact .inl (List.mem_singleton.mp mem)
  | case2 first rest _ => exact List.mem_cons.mp mem
  | case3 first rest _ _ =>
      exact (List.mem_cons.mp mem).imp_right (List.mem_cons_of_mem first)
  | case4 first rest _ _ ih =>
      rcases List.mem_cons.mp mem with rfl | later
      · exact .inr List.mem_cons_self
      · exact (ih later).imp_right (List.mem_cons_of_mem first)

theorem mem_of_mem_foldr_record (mem : capture ∈ captures.foldr record []) :
    capture ∈ captures := by
  induction captures with
  | nil => exact mem
  | cons first rest ih =>
      rcases mem_of_mem_record mem with rfl | later
      · exact List.mem_cons_self
      · exact List.mem_cons_of_mem first (ih later)

/-- No group is there twice, and a group with a smaller number comes first. -/
def InOrder (captures : List Capture) : Prop :=
  captures.Pairwise fun one two => one.group < two.group

theorem InOrder.record (capture : Capture) (inOrder : InOrder captures) :
    InOrder (capture.record captures) := by
  unfold InOrder at inOrder ⊢
  -- A capture goes in front of the first one with a greater group, or replaces one of its
  -- own; only in `case4` it goes further back.
  fun_induction Capture.record capture captures with
  | case1 => exact List.pairwise_singleton _ _
  | case2 first rest before =>
      refine .cons ?_ inOrder
      intro other mem
      rcases List.mem_cons.mp mem with rfl | later
      · exact before
      · exact Nat.lt_trans before (List.rel_of_pairwise_cons inOrder later)
  | case3 first rest _ same =>
      refine .cons ?_ inOrder.of_cons
      intro other later
      rw [same]
      exact List.rel_of_pairwise_cons inOrder later
  | case4 first rest notBefore differs ih =>
      refine .cons ?_ (ih inOrder.of_cons)
      intro other mem
      rcases mem_of_mem_record mem with rfl | later
      · omega
      · exact List.rel_of_pairwise_cons inOrder later

theorem inOrder_foldr_record (captures : List Capture) : InOrder (captures.foldr record []) := by
  induction captures with
  | nil => exact .nil
  | cons first rest ih => exact ih.record first

/-- Whatever has been captured, group 0 comes first. -/
theorem head?_record (whole : capture.group = 0) :
    (capture.record captures).head? = some capture := by
  fun_cases record capture captures with
  | case1 => rfl
  | case2 => rfl
  | case3 => rfl
  | case4 first rest notBefore differs => omega

/-- The capture lies between two offsets, and between places of the text. -/
structure Within (capture : Capture) (text : Text) (start stop : Nat) : Prop where
  starts : text.IsPlace capture.start
  stops : text.IsPlace capture.stop
  after : start ≤ capture.start
  le : capture.start ≤ capture.stop
  before : capture.stop ≤ stop

variable {text : Text} {start stop stop' : Nat}

theorem Within.mono (within : capture.Within text start stop) (le : stop ≤ stop') :
    capture.Within text start stop' :=
  { within with before := Nat.le_trans within.before le }

/-- There is a text that is captured. -/
theorem Within.exists_text? (within : capture.Within text start stop) :
    ∃ value, capture.text? text = some value :=
  Text.exists_slice? within.starts within.stops within.le

end Capture

/-! ### The walk of a pattern -/

namespace Pattern

variable {numbered : Nat → Prop} {text : Text} {origin : Nat}

/-- Where a walk stands, all that it has captured since its origin lies behind it, by
groups that are numbered as the tree says. -/
def capturing (numbered : Nat → Prop) (text : Text) (origin : Nat) : Assertion Unit where
  meets := fun node => ∀ group, node.kind.group? = some group → numbered group
  stands := fun offset trace _ => text.IsPlace offset ∧ origin ≤ offset ∧
    ∀ capture ∈ trace.captures, numbered capture.group ∧ capture.Within text origin offset
  fails := fun _ _ => True

theorem capturing_lawful (numbered : Nat → Prop) (text : Text) (origin : Nat) :
    (capturing numbered text origin).Lawful { text, resolve := noReferences } where
  back := fun _ _ => trivial
  retry := fun stands _ => stands
  drop := fun stands _ => stands
  capture := by
    rintro node group start stop entered trace before state allowed isGroup
      ⟨starts, after, _⟩ le ⟨stops, later, captured⟩
    refine ⟨stops, later, ?_⟩
    intro capture mem
    rcases List.mem_cons.mp mem with rfl | earlier
    · exact ⟨allowed group isGroup, starts, stops, after, le, Nat.le_refl _⟩
    · exact captured capture earlier
  character := by
    rintro node offset stop trace state char _ _ ⟨_, after, captured⟩ between
    have le := Text.le_of_slice? between
    refine ⟨Text.isPlace_stop_of_slice? between, Nat.le_trans after le, ?_⟩
    intro capture mem
    obtain ⟨isNumbered, within⟩ := captured capture mem
    exact ⟨isNumbered, within.mono le⟩
  mute := fun _ _ => trivial
  reference := fun _ _ _ => Assertion.upheld_of_failed rfl trivial
  tidy := fun _ _ _ _ _ => rfl

end Pattern

/-! ### Matches -/

/-- What is true of a match in a text: it lies between places of the text, and so do
its captures, which lie within it, in the order of the groups and with the whole
match first. -/
structure Match.WellFormed (m : Match) (text : Text) : Prop where
  starts : text.IsPlace m.start
  stops : text.IsPlace m.stop
  le : m.start ≤ m.stop
  inText : m.stop ≤ text.size
  inOrder : Capture.InOrder m.captures
  whole : m.captures.head? = some ⟨0, m.start, m.stop⟩
  within : ∀ capture ∈ m.captures, capture.Within text m.start m.stop

namespace Match.WellFormed

variable {m : Match} {text : Text}

theorem exists_slice? (wellFormed : m.WellFormed text) :
    ∃ value, text.slice? m.start m.stop = some value :=
  Text.exists_slice? wellFormed.starts wellFormed.stops wellFormed.le

/-- If a group took part in the match, there is a text that it captured. -/
theorem exists_text? (wellFormed : m.WellFormed text) {group : Nat} {capture : Capture}
    (found : m.group? group = some capture) : ∃ value, capture.text? text = some value :=
  (wellFormed.within capture (List.mem_of_find?_eq_some found)).exists_text?

end Match.WellFormed

namespace Pattern

variable {pattern : Pattern} {text : Text} {offset : Nat} {m : Match}

/-- All that is captured is captured by the groups of the pattern, within the match. -/
theorem captures_of_matchAt? (numbered : Nat → Prop)
    (groups : ∀ group ∈ pattern.root.groupNumbers, numbered group)
    (found : pattern.matchAt? text offset = some m) {capture : Capture}
    (mem : capture ∈ m.captures) :
    (capture.group = 0 ∨ numbered capture.group) ∧ capture.Within text m.start m.stop := by
  obtain ⟨place, stop, reached, rfl⟩ := exists_walk_of_matchAt? found
  have meets : ∀ node ∈ pattern.root.visit, (capturing numbered text offset).meets node :=
    fun node inside group isGroup => groups group (List.mem_filterMap.mpr ⟨node, inside, isGroup⟩)
  have upheld : (capturing numbered text offset).Upheld offset (pattern.walk text offset) :=
    pattern.root.walk_upheld (capturing_lawful numbered text offset) meets offset {} ()
      ⟨place, Nat.le_refl _, nofun⟩
  obtain ⟨le, stops, _, captured⟩ := upheld.reached stop reached
  rcases Capture.mem_of_mem_record mem with rfl | earlier
  · exact ⟨.inl rfl, place, stops, Nat.le_refl _, le, Nat.le_refl _⟩
  · exact (captured capture (Capture.mem_of_mem_foldr_record earlier)).imp_left .inr

theorem wellFormed_of_matchAt? (found : pattern.matchAt? text offset = some m) :
    m.start = offset ∧ m.WellFormed text := by
  obtain ⟨starts, same, stops, le⟩ := extent_of_matchAt? found
  have within : ∀ capture ∈ m.captures, capture.Within text m.start m.stop :=
    fun capture mem => (captures_of_matchAt? (fun _ => True) (fun _ _ => trivial) found mem).2
  obtain ⟨_, stop, _, rfl⟩ := exists_walk_of_matchAt? found
  exact ⟨same, starts, stops, le, stops.le_size, (Capture.inOrder_foldr_record _).record _,
    Capture.head?_record rfl, within⟩

/-- A pattern, whatever its tree, matches at places of the text only. From there its
walk never looks at the text from an offset that is no place; and what it matches is
well-formed, so that the texts of the match and of its groups are there. If the
pattern is compiled, nothing is captured but by its groups. -/
theorem matchAt?_wellFormed (pattern : Pattern) (text : Text) (offset : Nat) :
    (¬ text.IsPlace offset → pattern.matchAt? text offset = none) ∧
      (text.IsPlace offset → ∀ activation,
        Activation.Reaches { text, resolve := noReferences }
          ⟨.sequence pattern.root, offset, {}, ()⟩ activation →
            activation.Inside { text, resolve := noReferences }) ∧
      ∀ m, pattern.matchAt? text offset = some m →
        m.start = offset ∧ m.WellFormed text ∧
          (∃ value, text.slice? m.start m.stop = some value) ∧
          (∀ group capture, m.group? group = some capture →
            ∃ value, capture.text? text = some value) ∧
          ∀ source, compile source = .ok pattern →
            ∀ capture ∈ m.captures, capture.group ≤ pattern.groups := by
  refine ⟨pattern.matchAt?_eq_none, ?_, ?_⟩
  · intro place activation reaches
    have lawful := contract_lawful text
    have sound : Activation.Sound contract { text, resolve := noReferences }
        ⟨.sequence pattern.root, offset, {}, ()⟩ := ⟨fun _ _ => trivial, place, trivial⟩
    exact (sound.reaches lawful reaches).inside lawful
  · intro m found
    obtain ⟨same, wellFormed⟩ := wellFormed_of_matchAt? found
    refine ⟨same, wellFormed, wellFormed.exists_slice?, fun group capture =>
      wellFormed.exists_text?, ?_⟩
    intro source compiled capture mem
    obtain ⟨_, _, numbers⟩ := isPattern_of_compile_eq_ok compiled
    have groups : ∀ group ∈ pattern.root.groupNumbers, group ≤ pattern.groups := by
      intro group inside
      rw [numbers] at inside
      have := (List.mem_range'_1.mp inside).2
      omega
    rcases (captures_of_matchAt? (· ≤ pattern.groups) groups found mem).1 with whole | group
    · exact whole ▸ Nat.zero_le _
    · exact group

/-- Inside of the first accented letter there is nothing to match. In front of it both
letters are matched, and of the inner group the second one is kept. -/
theorem accents_wellFormed :
    ∃ pattern m, compile "((é)|x)*[^x]" = .ok pattern ∧
      pattern.matchAt? "aéé!".toList 2 = none ∧ pattern.matchAt? "aéé!".toList 1 = some m ∧
      m.captures = [⟨0, 1, 6⟩, ⟨1, 1, 5⟩, ⟨2, 3, 5⟩] ∧ m.WellFormed "aéé!".toList ∧
      ∀ capture ∈ m.captures, capture.group ≤ pattern.groups := by
  have computed : (match compile "((é)|x)*[^x]" with
      | .ok pattern => (pattern.matchAt? "aéé!".toList 1).map Match.captures
      | .error _ => none) = some [⟨0, 1, 6⟩, ⟨1, 1, 5⟩, ⟨2, 3, 5⟩] := by decide +kernel
  have away : ¬ Text.IsPlace "aéé!".toList 2 := by
    rw [Text.isPlace_iff]
    exact nofun
  split at computed
  · rename_i pattern compiled
    obtain ⟨m, found, captured⟩ := Option.map_eq_some_iff.mp computed
    obtain ⟨nowhere, _, _⟩ := matchAt?_wellFormed pattern "aéé!".toList 2
    obtain ⟨_, _, somewhere⟩ := matchAt?_wellFormed pattern "aéé!".toList 1
    obtain ⟨_, wellFormed, _, _, groups⟩ := somewhere m found
    exact ⟨pattern, m, compiled, nowhere away, found, captured, wellFormed, groups _ compiled⟩
  · cases computed

end Pattern

end TextGrammar
