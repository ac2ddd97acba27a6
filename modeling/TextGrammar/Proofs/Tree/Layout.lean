import TextGrammar.Proofs.Text.Place
import TextGrammar.Proofs.Walk.Generation

/-!
Leaves laid out over a text.

Between two offsets of a text there are leaves, one after another, with gaps
before, between and after them. `Text.Laid` says so for gaps in which only
certain characters may stand. What is read off it: every leaf is a piece of the
text (`Laid.slice?_of_mem`), the leaves come in order (`Laid.pairwise`), and
where no gap may hold a character, the leaves are the whole text (`Laid.join`).
-/

namespace TextGrammar

namespace Text

variable {text : Text} {blank : Char → Prop} {start middle stop : Nat}

/-- Between the two offsets stand only characters that may stand in a gap. -/
def Blank (text : Text) (blank : Char → Prop) (start stop : Nat) : Prop :=
  ∃ gap, text.slice? start stop = some gap ∧ ∀ c ∈ gap, blank c

/-- From an offset to another, the leaves are non-empty pieces of the text with
gaps before, between and after them. -/
inductive Laid (text : Text) (blank : Char → Prop) : Nat → List ParseTree → Nat → Prop where
  | gap {start stop : Nat} : text.Blank blank start stop → Laid text blank start [] stop
  | leaf {start offset next stop : Nat} {label : String} {value : Text} {leaves : List ParseTree} :
      text.Blank blank start offset → text.slice? offset next = some value → value ≠ [] →
      Laid text blank next leaves stop →
      Laid text blank start (.leaf label (String.ofList value) offset :: leaves) stop

theorem Blank.le (gap : text.Blank blank start stop) : start ≤ stop := by
  obtain ⟨_, between, _⟩ := gap
  exact le_of_slice? between

theorem Blank.refl (place : text.IsPlace start) : text.Blank blank start start :=
  ⟨[], slice?_self place, by simp⟩

theorem Blank.mono {blank' : Char → Prop} (gap : text.Blank blank start stop)
    (weaker : ∀ c, blank c → blank' c) : text.Blank blank' start stop := by
  obtain ⟨between, isBetween, allBlank⟩ := gap
  exact ⟨between, isBetween, fun c mem => weaker c (allBlank c mem)⟩

/-- Neighbouring gaps are one gap. -/
theorem Blank.trans (first : text.Blank blank start middle)
    (second : text.Blank blank middle stop) : text.Blank blank start stop := by
  obtain ⟨gap, between, allBlank⟩ := first
  obtain ⟨gap', between', allBlank'⟩ := second
  refine ⟨gap ++ gap', slice?_append between between', ?_⟩
  intro c mem
  rcases List.mem_append.mp mem with inFirst | inSecond
  · exact allBlank c inFirst
  · exact allBlank' c inSecond

theorem lt_of_slice? {value : Text} (between : text.slice? start stop = some value)
    (some : value ≠ []) : start < stop := by
  have sized := add_size_of_slice? between
  cases value with
  | nil => exact absurd rfl some
  | cons c cs =>
      have := c.utf8Size_pos
      rw [size_cons] at sized
      omega

namespace Laid

variable {leaves leaves' : List ParseTree}

/-- A gap in front of leaves belongs to the gap before the first one. -/
theorem after_gap (gap : text.Blank blank start middle)
    (laid : text.Laid blank middle leaves stop) : text.Laid blank start leaves stop := by
  cases laid with
  | gap rest => exact .gap (gap.trans rest)
  | leaf rest between some others => exact .leaf (gap.trans rest) between some others

/-- Leaves laid out one stretch after another are laid out over both. -/
theorem append (first : text.Laid blank start leaves middle)
    (second : text.Laid blank middle leaves' stop) :
    text.Laid blank start (leaves ++ leaves') stop := by
  induction first with
  | gap gap => exact second.after_gap gap
  | leaf gap between some _ ih => exact .leaf gap between some (ih second)

theorem le (laid : text.Laid blank start leaves stop) : start ≤ stop := by
  induction laid with
  | gap gap => exact gap.le
  | leaf gap between some _ ih =>
      have := gap.le
      have := le_of_slice? between
      omega

/-- More characters may stand in the gaps. -/
theorem mono {blank' : Char → Prop} (laid : text.Laid blank start leaves stop)
    (weaker : ∀ c, blank c → blank' c) : text.Laid blank' start leaves stop := by
  induction laid with
  | gap gap => exact .gap (gap.mono weaker)
  | leaf gap between some _ ih => exact .leaf (gap.mono weaker) between some ih

/-- Where there is no room there are no leaves. -/
theorem eq_nil (laid : text.Laid blank start leaves start) : leaves = [] := by
  cases laid with
  | gap _ => rfl
  | leaf gap between some others =>
      have := gap.le
      have := lt_of_slice? between some
      have := others.le
      omega

/-- Every leaf has a text that is not empty, and it is what the input has at the
leaf's offset. -/
theorem slice?_of_mem (laid : text.Laid blank start leaves stop) :
    ∀ leaf ∈ leaves, ∃ offset value, leaf.offset = some offset ∧ leaf.value = some value ∧
      value ≠ "" ∧ start ≤ offset ∧
      text.slice? offset (offset + value.utf8ByteSize) = some value.toList := by
  induction laid with
  | gap _ => simp
  | @leaf start offset next stop label value leaves gap between nonempty others ih =>
      intro leaf mem
      rcases List.mem_cons.mp mem with rfl | later
      · refine ⟨offset, String.ofList value, rfl, rfl, ?_, gap.le, ?_⟩
        · intro empty
          exact nonempty (by simpa using congrArg String.toList empty)
        · rw [utf8ByteSize_ofList, add_size_of_slice? between, String.toList_ofList]
          exact between
      · obtain ⟨offset', value', found⟩ := ih leaf later
        have := gap.le
        have := le_of_slice? between
        exact ⟨offset', value', found.1, found.2.1, found.2.2.1, by omega, found.2.2.2.2⟩

/-- No leaf starts before an earlier one has ended. -/
theorem pairwise (laid : text.Laid blank start leaves stop) :
    leaves.Pairwise fun earlier later =>
      ∃ stop offset, earlier.stop? = some stop ∧ later.offset = some offset ∧ stop ≤ offset := by
  induction laid with
  | gap _ => exact .nil
  | @leaf start offset next stop label value leaves gap between nonempty others ih =>
      refine .cons ?_ ih
      intro later mem
      obtain ⟨offset', _, starts, _, _, le, _⟩ := others.slice?_of_mem later mem
      refine ⟨next, offset', ?_, starts, le⟩
      simp [ParseTree.stop?, ParseTree.leaf, add_size_of_slice? between]

/-- The first leaf starts and the last one ends at places between the offsets, and
the one not before the other. -/
theorem exists_ends (laid : text.Laid blank start leaves stop) (nonempty : leaves ≠ []) :
    ∃ first last, leaves.head?.bind ParseTree.offset = some first ∧
      leaves.getLast?.bind ParseTree.stop? = some last ∧ text.IsPlace first ∧
      text.IsPlace last ∧ start ≤ first ∧ first ≤ last ∧ last ≤ stop := by
  induction laid with
  | gap _ => exact absurd rfl nonempty
  | @leaf start offset next stop label value leaves gap between some others ih =>
      have starts : text.IsPlace offset := isPlace_start_of_slice? between
      have le := le_of_slice? between
      cases leaves with
      | nil =>
          have ends : (ParseTree.leaf label (String.ofList value) offset).stop? = .some next := by
            simp [ParseTree.stop?, ParseTree.leaf, add_size_of_slice? between]
          exact ⟨offset, next, rfl, ends, starts, isPlace_stop_of_slice? between, gap.le, le,
            others.le⟩
      | cons leaf leaves =>
          obtain ⟨first, last, _, ends, _, place, after, ordered, before⟩ := ih (by simp)
          exact ⟨offset, last, rfl, by simpa using ends, starts, place, gap.le, by omega, before⟩

/-- Where nothing may stand in a gap, the leaves together are the text. -/
theorem join (laid : text.Laid (fun _ => False) start leaves stop) :
    text.slice? start stop = some (String.join (leaves.filterMap ParseTree.value)).toList := by
  have empty : ∀ {start stop}, text.Blank (fun _ => False) start stop →
      text.slice? start stop = some [] := by
    rintro start stop ⟨gap, between, none⟩
    cases gap with
    | nil => exact between
    | cons c cs => exact absurd List.mem_cons_self (none c)
  induction laid with
  | gap gap => simpa using empty gap
  | @leaf start offset next stop label value leaves gap between nonempty others ih =>
      have whole := slice?_append (slice?_append (empty gap) between) ih
      rw [whole]
      simp [ParseTree.leaf, String.join_cons]

end Laid

end Text

end TextGrammar
