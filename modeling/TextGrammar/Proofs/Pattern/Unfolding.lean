import TextGrammar.Proofs.Pattern.Stops

/-!
Quantifiers written out.

A node under a quantifier matches where its kind does as many times in a row as it
must, followed by as many times more as it may. The times that it may are groups that
need not match, each inside the one before it (`optionals`), or without a maximum one
star; and a star ends where the kind, matched again and again, fails or matches the
empty text for the first time (`HaltsAt`). That an empty match is counted for the whole
minimum and not repeated doesn't show in where a match ends.
-/

namespace TextGrammar.Pattern

/-- A kind matched up to so many times, each time in a group after the time before; the
groups may have any numbers. -/
def optionals (number : Nat → Nat) (kind : Kind) : Nat → List Node
  | 0 => []
  | count + 1 =>
      [⟨.group (number count) (.only (.one kind :: optionals number kind count)),
        some .atMostOnce⟩]

/-- Going on from an offset again and again ends at another one, the first at which
there is no way on or the way leads nowhere else. -/
inductive HaltsAt (next? : Nat → Option Nat) : Nat → Nat → Prop where
  | failed {offset : Nat} : next? offset = none → HaltsAt next? offset offset
  | empty {offset : Nat} : next? offset = some offset → HaltsAt next? offset offset
  | again {offset next stop : Nat} : next? offset = some next → next ≠ offset →
      HaltsAt next? next stop → HaltsAt next? offset stop

theorem HaltsAt.unique {next? : Nat → Option Nat} {offset stop stop' : Nat}
    (halts : HaltsAt next? offset stop) (halts' : HaltsAt next? offset stop') : stop' = stop := by
  induction halts with
  | failed fails => cases halts' <;> simp_all
  | empty stays => cases halts' <;> simp_all
  | again goes further _ ih =>
      cases halts' with
      | failed fails => simp [fails] at goes
      | empty stays => exact absurd (Option.some.inj (goes.symm.trans stays)) further
      | again goes' _ rest =>
          cases goes.symm.trans goes'
          exact ih rest

variable {text : Text} {offset : Nat} {kind : Kind}

theorem ordered_between {min max : Nat} (ordered : min ≤ max) :
    (Option.getD (some ⟨min, some max⟩) Quantifier.once).Ordered := by
  rintro _ ⟨⟩
  exact ordered

theorem ordered_unbounded (min : Nat) :
    (Option.getD (some ⟨min, none⟩) Quantifier.once).Ordered := by
  rintro _ ⟨⟩

/-- A kind that may be matched up to so many times always is, perhaps as the empty
text. -/
theorem exists_stop?_upTo (kind : Kind) (most : Nat) (place : text.IsPlace offset) :
    ∃ stop, Node.stop? text ⟨kind, some ⟨0, some most⟩⟩ offset = some stop := by
  induction most generalizing offset with
  | zero => exact ⟨offset, Node.stop?_of_enough (ordered_between (Nat.le_refl 0)) rfl⟩
  | succ most ih =>
      rw [Node.stop?_rest place (ordered_between (Nat.zero_le _)) rfl]
      cases ends : kind.stop? text offset with
      | none => exact ⟨offset, rfl⟩
      | some next => exact ih (Kind.isPlace_of_stop? place ends).1

/-- Groups inside one another that need not match end where the kind does that may be
matched as often. -/
theorem stopAll?_optionals (number : Nat → Nat) (kind : Kind) (most : Nat)
    (place : text.IsPlace offset) :
    Node.stopAll? text (optionals number kind most) offset =
      Node.stop? text ⟨kind, some ⟨0, some most⟩⟩ offset := by
  induction most generalizing offset with
  | zero =>
      rw [optionals, Node.stopAll?_nil]
      exact (Node.stop?_of_enough (ordered_between (Nat.le_refl 0)) rfl).symm
  | succ most ih =>
      have once : (Option.getD (some Quantifier.atMostOnce) Quantifier.once).Ordered :=
        ordered_between (Nat.zero_le 1)
      rw [optionals, Node.stopAll?_singleton, Node.stop?_rest place once rfl, Kind.stop?_group,
        Sequence.stop?_only, Node.stopAll?_cons, Node.stop?_one kind place,
        Node.stop?_rest place (ordered_between (Nat.zero_le (most + 1))) rfl]
      cases ends : kind.stop? text offset with
      | none => rfl
      | some next =>
          have placeNext := (Kind.isPlace_of_stop? place ends).1
          obtain ⟨stop, stops⟩ := exists_stop?_upTo kind most placeNext
          rw [Option.bind_some, ih placeNext, stops]
          -- The group has matched, so it is not matched again.
          exact (Node.stop?_of_enough (ordered_between (Nat.le_refl 0)) rfl).trans stops.symm

/-- What has to match first is matched in a row, whatever may be matched after it. -/
theorem stop?_replicate {max : Option Nat} {rest : List Node} (min : Nat)
    (ordered : ∀ most, max = some most → min ≤ most)
    (optional : ∀ offset, text.IsPlace offset →
      Node.stop? text ⟨kind, some ⟨0, max.map (· - min)⟩⟩ offset = Node.stopAll? text rest offset)
    (place : text.IsPlace offset) :
    Node.stop? text ⟨kind, some ⟨min, max⟩⟩ offset =
      Node.stopAll? text (List.replicate min (.one kind) ++ rest) offset := by
  induction min generalizing max offset with
  | zero => simpa using optional offset place
  | succ min ih =>
      have bounded : (Option.getD (some ⟨min + 1, max⟩) Quantifier.once).Ordered := ordered
      have more : (Option.getD (some ⟨min + 1, max⟩) Quantifier.once).allowsMore 0 = true := by
        cases max with
        | none => rfl
        | some most => exact decide_eq_true (Nat.lt_of_lt_of_le (Nat.succ_pos min) (ordered most rfl))
      rw [Node.stop?_rest place bounded more, List.replicate_succ, List.cons_append,
        Node.stopAll?_cons, Node.stop?_one kind place]
      cases ends : kind.stop? text offset with
      | none => rfl
      | some next =>
          have placeNext := (Kind.isPlace_of_stop? place ends).1
          refine ih ?_ ?_ placeNext
          · intro most lowered
            obtain ⟨most, bounded, rfl⟩ := Option.map_eq_some_iff.mp lowered
            exact Nat.le_sub_of_add_le (ordered most bounded)
          · intro offset place
            rw [← optional offset place]
            cases max with
            | none => rfl
            | some most => simp [Nat.sub_sub, Nat.add_comm]

/-- A star ends where its kind, matched again and again, halts. -/
theorem exists_haltsAt (kind : Kind) (place : text.IsPlace offset) :
    ∃ stop, Node.stop? text ⟨kind, some .zeroOrMore⟩ offset = some stop ∧
      HaltsAt (kind.stop? text) offset stop := by
  -- The induction is on the bytes that are left behind the offset.
  induction left : text.size - offset using Nat.strongRecOn generalizing offset with
  | ind left ih =>
      subst left
      cases ends : kind.stop? text offset with
      | none =>
          refine ⟨offset, ?_, .failed ends⟩
          exact Node.stop?_of_failed place rfl ends
      | some next =>
          by_cases empty : next = offset
          · subst empty
            exact ⟨next, Node.stop?_of_empty (ordered_unbounded 0) ends, .empty ends⟩
          · obtain ⟨placeNext, le⟩ := Kind.isPlace_of_stop? place ends
            have within := placeNext.le_size
            obtain ⟨stop, stops, halts⟩ := ih _ (by omega) placeNext rfl
            refine ⟨stop, ?_, .again ends empty halts⟩
            rw [Node.stop?_of_advance place rfl ends empty]
            exact stops

/-- What halts where matches of a kind end halts where matches of the pattern of that
kind do. -/
theorem HaltsAt.matchAt? {stop : Nat} (halts : HaltsAt (kind.stop? text) offset stop)
    (place : text.IsPlace offset) (source : String) (groups : Nat) :
    HaltsAt (fun offset =>
      (Pattern.matchAt? ⟨source, .only [.one kind], groups⟩ text offset).map Match.stop)
      offset stop := by
  have same : ∀ {offset}, text.IsPlace offset →
      (Pattern.matchAt? ⟨source, .only [.one kind], groups⟩ text offset).map Match.stop =
        kind.stop? text offset := by
    intro offset place
    rw [map_stop_matchAt? _ place, Sequence.stop?_only, Node.stopAll?_singleton,
      Node.stop?_one kind place]
  induction halts with
  | failed fails => exact .failed ((same place).trans fails)
  | empty stays => exact .empty ((same place).trans stays)
  | again goes further _ ih =>
      exact .again ((same place).trans goes) further (ih (Kind.isPlace_of_stop? place goes).1)

/-- A kind under bounds matches where it does as often as it must, one after another,
followed by as often more as it may, and ends there; without a maximum the rest is a
star. A star matches at every place, and ends where its kind, matched again and again,
fails or matches the empty text for the first time. -/
theorem matchAt?_unfolds (kind : Kind) (number : Nat → Nat) (text : Text) (offset : Nat)
    (source source' : String) (groups groups' : Nat) :
    (∀ min max, min ≤ max →
      (matchAt? ⟨source, .only [⟨kind, some ⟨min, some max⟩⟩], groups⟩ text offset).map
          Match.stop =
        (matchAt? ⟨source', .only (List.replicate min (.one kind) ++
          optionals number kind (max - min)), groups'⟩ text offset).map Match.stop) ∧
      (∀ min,
        (matchAt? ⟨source, .only [⟨kind, some (.atLeast min)⟩], groups⟩ text offset).map
            Match.stop =
          (matchAt? ⟨source', .only (List.replicate min (.one kind) ++
            [⟨kind, some .zeroOrMore⟩]), groups'⟩ text offset).map Match.stop) ∧
      (text.IsPlace offset →
        ∃ m, matchAt? ⟨source, .only [⟨kind, some .zeroOrMore⟩], groups⟩ text offset = some m ∧
          ∀ stop, HaltsAt (fun offset =>
              (matchAt? ⟨source', .only [.one kind], groups'⟩ text offset).map Match.stop)
              offset stop ↔ stop = m.stop) := by
  refine ⟨?_, ?_, ?_⟩
  · intro min max ordered
    by_cases place : text.IsPlace offset
    · rw [map_stop_matchAt? _ place, map_stop_matchAt? _ place, Sequence.stop?_only,
        Sequence.stop?_only, Node.stopAll?_singleton]
      refine stop?_replicate min (ordered_between ordered) ?_ place
      intro offset place
      exact (stopAll?_optionals number kind (max - min) place).symm
    · rw [matchAt?_eq_none _ place, matchAt?_eq_none _ place]
  · intro min
    by_cases place : text.IsPlace offset
    · rw [map_stop_matchAt? _ place, map_stop_matchAt? _ place, Sequence.stop?_only,
        Sequence.stop?_only, Node.stopAll?_singleton]
      refine stop?_replicate min (ordered_unbounded min) ?_ place
      intro offset _
      exact (Node.stopAll?_singleton _).symm
    · rw [matchAt?_eq_none _ place, matchAt?_eq_none _ place]
  · intro place
    obtain ⟨stop, stops, halts⟩ := exists_haltsAt kind place
    have found := map_stop_matchAt? ⟨source, .only [⟨kind, some .zeroOrMore⟩], groups⟩ place
    rw [Sequence.stop?_only, Node.stopAll?_singleton, stops] at found
    obtain ⟨m, matched, rfl⟩ := Option.map_eq_some_iff.mp found
    refine ⟨m, matched, fun last => ⟨?_, ?_⟩⟩
    · exact fun halts' => (halts.matchAt? place source' groups').unique halts'
    · rintro rfl
      exact halts.matchAt? place source' groups'

/-- Words that may be empty, with a word boundary before each. -/
def boundedWord : Kind :=
  .group 1 (.only [.one .wordBoundary, ⟨.single .word, some .zeroOrMore⟩])

/-- A word is matched at least twice and at most four times: the second match is that of
the empty text behind the first word, and counts for all that are left. -/
theorem boundedWord_unfolds :
    ((matchAt? ⟨"", .only [⟨boundedWord, some ⟨2, some 4⟩⟩], 1⟩ "ab cd".toList 0).map
        Match.stop = some 2 ∧
      (matchAt? ⟨"", .only (List.replicate 2 (.one boundedWord) ++
        optionals (· + 2) boundedWord 2), 3⟩ "ab cd".toList 0).map Match.stop = some 2) ∧
      ∃ m, matchAt? ⟨"", .only [⟨boundedWord, some .zeroOrMore⟩], 1⟩ "ab cd".toList 0 = some m ∧
        m.stop = 2 := by
  obtain ⟨between, _, star⟩ :=
    matchAt?_unfolds boundedWord (· + 2) "ab cd".toList 0 "" "" 1 3
  have ends : (matchAt? ⟨"", .only [⟨boundedWord, some ⟨2, some 4⟩⟩], 1⟩ "ab cd".toList 0).map
      Match.stop = some 2 := by decide +kernel
  obtain ⟨m, matched, _⟩ := star (Text.isPlace_zero _)
  refine ⟨⟨ends, (between 2 4 (by decide)).symm.trans ends⟩, m, matched, ?_⟩
  have stops : (matchAt? ⟨"", .only [⟨boundedWord, some .zeroOrMore⟩], 1⟩ "ab cd".toList 0).map
      Match.stop = some 2 := by decide +kernel
  rw [matched] at stops
  exact Option.some.inj stops

end TextGrammar.Pattern
