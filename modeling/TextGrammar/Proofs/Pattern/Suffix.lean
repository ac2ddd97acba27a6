import Mathlib.Data.List.Forall2
import TextGrammar.Proofs.Pattern.Extent
import TextGrammar.Proofs.Walk.Likeness

/-!
What a match sees of its text.

A match sees what the text is from its start on, and of what is in front of it one
bit only: whether it ends with a word character. Behind two fronts that agree on
this bit a pattern matches alike, and what it matches and captures lies as far behind
the one front as behind the other one (`Pattern.matchAt?_rel`).
-/

namespace TextGrammar

/-! ### Texts behind a front -/

namespace Text

/-- Whether a word character stands at the end of the text. -/
def endsInWord (text : Text) : Bool :=
  text.getLast?.any isWord

/-- To split a text behind a front is to split its back. -/
theorem split?_append (front back : Text) (bytes : Nat) :
    (front ++ back).split? (front.size + bytes) =
      (back.split? bytes).map fun parts => (front ++ parts.1, parts.2) := by
  apply Option.ext
  rintro ⟨before, after⟩
  rw [split?_eq_some_iff, Option.map_eq_some_iff]
  constructor
  · rintro ⟨whole, sized⟩
    obtain ⟨between, rfl, rfl⟩ := prefix_of_append_eq whole (by omega)
    rw [size_append] at sized
    exact ⟨(between, after), split?_eq_some_iff.mpr ⟨rfl, by omega⟩, rfl⟩
  · rintro ⟨⟨between, rest⟩, split, same⟩
    obtain ⟨rfl, rfl⟩ := Prod.mk.inj same
    obtain ⟨rfl, rfl⟩ := split?_eq_some_iff.mp split
    exact ⟨by simp, by simp⟩

/-- Behind a front a text goes on as its back does. -/
theorem rest?_append (front back : Text) (bytes : Nat) :
    (front ++ back).rest? (front.size + bytes) = back.rest? bytes := by
  rw [rest?_eq_map_split?, rest?_eq_map_split?, split?_append, Option.map_map]
  rfl

theorem endsInWord_append (front text : Text) :
    (front ++ text).endsInWord = if text = [] then front.endsInWord else text.endsInWord := by
  unfold endsInWord
  rw [List.getLast?_append]
  cases last : text.getLast? with
  | none =>
      rw [if_pos (List.getLast?_eq_none_iff.mp last)]
      rfl
  | some c =>
      have some : text ≠ [] := by
        rintro rfl
        cases last
      rw [if_neg some]
      rfl

end Text

/-! ### Alignment -/

/-- The offsets lie as far behind their origins as each other. -/
def Aligned (origin origin' offset offset' : Nat) : Prop :=
  ∃ bytes, offset = origin + bytes ∧ offset' = origin' + bytes

/-- The same group captured the same stretch, seen from the origins. -/
structure Capture.Aligned (origin origin' : Nat) (capture capture' : Capture) : Prop where
  group : capture'.group = capture.group
  start : TextGrammar.Aligned origin origin' capture.start capture'.start
  stop : TextGrammar.Aligned origin origin' capture.stop capture'.stop

/-- The matches and all that they capture are the same, seen from the origins. -/
structure Match.Aligned (origin origin' : Nat) (m m' : Match) : Prop where
  start : TextGrammar.Aligned origin origin' m.start m'.start
  stop : TextGrammar.Aligned origin origin' m.stop m'.stop
  captures : List.Forall₂ (Capture.Aligned origin origin') m.captures m'.captures

variable {origin origin' : Nat}

theorem Aligned.refl (origin origin' : Nat) : Aligned origin origin' origin origin' :=
  ⟨0, rfl, rfl⟩

theorem Capture.Aligned.record {capture capture' : Capture}
    (aligned : Capture.Aligned origin origin' capture capture') {captures captures' : List Capture}
    (others : List.Forall₂ (Capture.Aligned origin origin') captures captures') :
    List.Forall₂ (Capture.Aligned origin origin') (capture.record captures)
      (capture'.record captures') := by
  induction others with
  | nil => exact .cons aligned .nil
  | cons first rest ih =>
      unfold Capture.record
      rw [aligned.group, first.group]
      split
      · exact .cons aligned (.cons first rest)
      · split
        · exact .cons aligned rest
        · exact .cons first ih

theorem Capture.Aligned.foldr_record {captures captures' : List Capture}
    (aligned : List.Forall₂ (Capture.Aligned origin origin') captures captures') :
    List.Forall₂ (Capture.Aligned origin origin') (captures.foldr Capture.record [])
      (captures'.foldr Capture.record []) := by
  induction aligned with
  | nil => exact .nil
  | cons first _ ih => exact first.record ih

/-- Aligned captures make up aligned matches. -/
theorem Match.aligned_ofTrace {stop stop' : Nat} {trace trace' : Trace}
    (stops : TextGrammar.Aligned origin origin' stop stop')
    (captures : List.Forall₂ (Capture.Aligned origin origin') trace.captures trace'.captures) :
    Match.Aligned origin origin' (.ofTrace origin stop trace) (.ofTrace origin' stop' trace') where
  start := .refl origin origin'
  stop := stops
  captures := by
    have whole : Capture.Aligned origin origin' ⟨0, origin, stop⟩ ⟨0, origin', stop'⟩ :=
      ⟨rfl, .refl origin origin', stops⟩
    exact whole.record (Capture.Aligned.foldr_record captures)

namespace Pattern

/-- Two walks of a pattern, seen from where they start. -/
def alignment (origin origin' : Nat) : Likeness Empty Unit Empty Unit where
  meets := fun _ => True
  place := Aligned origin origin'
  trace := fun trace trace' =>
    List.Forall₂ (Capture.Aligned origin origin') trace.captures trace'.captures
  state := fun _ _ => True
  error := Eq
  lost := fun _ => False
  off := fun _ => False
  lost' := fun _ => False
  off' := fun _ => False

variable {front front' : Text}

/-- A walk doesn't see anything of the front but whether it ends with a word
character. -/
theorem alignment_lawful (same : front'.endsInWord = front.endsInWord) (back : Text) :
    (alignment front.size front'.size).Lawful { text := front ++ back, resolve := noReferences }
      { text := front' ++ back, resolve := noReferences } where
  place_iff := by
    rintro _ _ _ _ ⟨one, rfl, rfl⟩ ⟨two, rfl, rfl⟩
    omega
  capture := fun traces starts stops => .cons ⟨rfl, starts, stops⟩ traces
  character := by
    rintro _ _ _ _ _ ⟨bytes, rfl, rfl⟩ test
    unfold Text.matchChar
    simp only [Text.rest?_append]
    split
    · exact .inl rfl
    · exact .inr (.inr .failed)
    · rename_i c _ _
      split
      · exact .inr (.inr (.reached ⟨bytes + c.utf8Size, by omega, by omega⟩))
      · exact .inr (.inr .failed)
  boundary := by
    rintro _ _ _ ⟨bytes, rfl, rfl⟩
    unfold Text.matchWordBoundary
    simp only [Text.split?_append]
    cases back.split? bytes with
    | none => exact .inl rfl
    | some parts =>
        have before : (front' ++ parts.1).endsInWord = (front ++ parts.1).endsInWord := by
          rw [Text.endsInWord_append, Text.endsInWord_append, same]
        unfold Text.endsInWord at before
        simp only [Option.map_some, before]
        split
        · exact .inr (.inr (.reached ⟨bytes, rfl, rfl⟩))
        · exact .inr (.inr .failed)
  reference := fun _ _ traces states => .inr (.inr ⟨.failed, traces, states⟩)
  keeps := fun _ _ _ _ off => off
  keeps' := fun _ _ _ _ off => off

/-- A walk from a place of the text doesn't leave it. -/
theorem walk_ne_misplaced (pattern : Pattern) {text : Text} {offset : Nat}
    (place : text.IsPlace offset) : (pattern.walk text offset).outcome ≠ .misplaced :=
  (Sequence.walk_met (contract_lawful text) pattern.root (fun _ _ => trivial) offset {} () place
    trivial).placed

/-- A pattern matches behind the one front if it does behind the other one, and what
it matches and captures is the same, seen from there. -/
theorem matchAt?_rel (pattern : Pattern) (same : front'.endsInWord = front.endsInWord)
    (back : Text) :
    Option.Rel (Match.Aligned front.size front'.size)
      (pattern.matchAt? (front ++ back) front.size)
      (pattern.matchAt? (front' ++ back) front'.size) := by
  have here : ∀ front : Text, (front ++ back).rest? front.size = some back :=
    fun front => Text.rest?_eq_some_iff.mpr ⟨front, rfl, rfl⟩
  have alike := pattern.root.walk_alike (alignment_lawful same back) (fun _ _ => trivial)
    front.size front'.size {} {} () () (.refl ..) .nil trivial
  have close := alike.close (pattern.walk_ne_misplaced ⟨front, back, rfl, rfl⟩) nofun id
    (pattern.walk_ne_misplaced ⟨front', back, rfl, rfl⟩) nofun id
  unfold matchAt? walk
  rw [here, here]
  simp only [Option.isSome_some, if_true]
  generalize pattern.root.walk { text := front ++ back, resolve := noReferences } front.size {}
    () = walked at close ⊢
  generalize pattern.root.walk { text := front' ++ back, resolve := noReferences } front'.size {}
    () = walked' at close ⊢
  obtain ⟨outcome, trace, state⟩ := walked
  obtain ⟨outcome', trace', state'⟩ := walked'
  obtain ⟨ends, traces, _⟩ := close
  cases ends with
  | reached stops => exact .some (Match.aligned_ofTrace stops traces)
  | failed => exact .none
  | raised error => exact .none

/-- At two places, of one text or of two, where the texts go on alike and both or none
of the characters in front is a word character, a pattern matches or it doesn't; and
what it matches and captures lies as far behind the one place as behind the other. -/
theorem matchAt?_rel_of_split? (pattern : Pattern) {text text' front front' back : Text}
    {offset offset' : Nat} (split : text.split? offset = some (front, back))
    (split' : text'.split? offset' = some (front', back))
    (same : front.endsInWord = front'.endsInWord) :
    Option.Rel (Match.Aligned offset offset') (pattern.matchAt? text offset)
      (pattern.matchAt? text' offset') := by
  obtain ⟨rfl, rfl⟩ := Text.split?_eq_some_iff.mp split
  obtain ⟨rfl, rfl⟩ := Text.split?_eq_some_iff.mp split'
  exact pattern.matchAt?_rel same.symm back

/-- A word is found behind a colon as it is where the text starts with it. -/
theorem colon_matchAt?_rel :
    ∃ pattern m m', compile "\\b(\\w)+\\b" = .ok pattern ∧
      pattern.matchAt? "ñ: b2!".toList 4 = some m ∧ pattern.matchAt? "b2!".toList 0 = some m' ∧
      Match.Aligned 4 0 m m' ∧ m.captures = [⟨0, 4, 6⟩, ⟨1, 4, 6⟩] := by
  have computed : (match compile "\\b(\\w)+\\b" with
      | .ok pattern => (pattern.matchAt? "ñ: b2!".toList 4).map Match.captures
      | .error _ => none) = some [⟨0, 4, 6⟩, ⟨1, 4, 6⟩] := by decide +kernel
  have split : Text.split? "ñ: b2!".toList 4 = some ("ñ: ".toList, "b2!".toList) := by decide
  have split' : Text.split? "b2!".toList 0 = some ([], "b2!".toList) := rfl
  split at computed
  · rename_i pattern compiled
    obtain ⟨m, found, captured⟩ := Option.map_eq_some_iff.mp computed
    have related := pattern.matchAt?_rel_of_split? split split' (by decide)
    rw [found] at related
    generalize matches' : pattern.matchAt? "b2!".toList 0 = found' at related
    cases related with
    | some aligned => exact ⟨pattern, m, _, compiled, found, matches', aligned, captured⟩
  · cases computed

end Pattern

end TextGrammar
