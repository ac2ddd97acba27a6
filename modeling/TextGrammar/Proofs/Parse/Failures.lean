import Mathlib.Data.List.Perm.Basic
import TextGrammar.Proofs.Parse.Attempts
import TextGrammar.Proofs.Parse.Names

/-!
What a parse that fails has expected.

A parse notes step by step what was expected and not there. In the end the note is a
summary of everything that was missed (`Progress.SumsUp`): the furthest offset where
something was missed, and what was missed there. That doesn't depend on how far the
parse went back in between, nor, but for the order of the names, on what was missed
first.
-/

namespace TextGrammar

/-! ### Summaries -/

/-- The furthest offset where something was missed, or the start if nothing was. -/
def furthestMiss (misses : List (Located String)) : Nat :=
  (misses.map Located.offset).max?.getD 0

/-- What was missed at an offset, each name once, in the order of the first misses. -/
def missedAt (misses : List (Located String)) (offset : Nat) : List String :=
  ((misses.filter fun miss => miss.offset = offset).map Located.content).eraseDups

theorem furthestMiss_eq_foldl (misses : List (Located String)) :
    furthestMiss misses = (misses.map Located.offset).foldl max 0 := by
  rw [List.foldl_max, Nat.zero_max, furthestMiss]

/-- One more miss is the furthest one, or the furthest one stays. -/
theorem furthestMiss_concat (misses : List (Located String)) (miss : Located String) :
    furthestMiss (misses ++ [miss]) = max (furthestMiss misses) miss.offset := by
  simp only [furthestMiss_eq_foldl, List.map_append, List.foldl_append, List.map_cons,
    List.map_nil, List.foldl_cons, List.foldl_nil]

/-- No miss is further than the furthest one. -/
theorem offset_le_furthestMiss {misses : List (Located String)} {miss : Located String}
    (mem : miss ∈ misses) : miss.offset ≤ furthestMiss misses :=
  List.le_max?_getD_of_mem (List.mem_map_of_mem mem)

theorem mem_missedAt {misses : List (Located String)} {name : String} {offset : Nat} :
    name ∈ missedAt misses offset ↔ ⟨name, offset⟩ ∈ misses := by
  simp only [missedAt, List.mem_eraseDups, List.mem_map, List.mem_filter, decide_eq_true_eq]
  constructor
  · rintro ⟨miss, ⟨mem, rfl⟩, rfl⟩
    exact mem
  · intro mem
    exact ⟨⟨name, offset⟩, ⟨mem, rfl⟩, rfl⟩

/-- Nothing is missed further on than at the furthest offset. -/
theorem missedAt_eq_nil {misses : List (Located String)} {offset : Nat}
    (beyond : furthestMiss misses < offset) : missedAt misses offset = [] := by
  rw [List.eq_nil_iff_forall_not_mem]
  intro name mem
  have := offset_le_furthestMiss (mem_missedAt.mp mem)
  simp only at this
  omega

/-- One more miss at an offset adds its name there, unless it is there already. -/
theorem missedAt_concat (misses : List (Located String)) (miss : Located String) (offset : Nat) :
    missedAt (misses ++ [miss]) offset =
      if miss.offset = offset ∧ miss.content ∉ missedAt misses offset then
        missedAt misses offset ++ [miss.content]
      else missedAt misses offset := by
  unfold missedAt
  rw [List.filter_append, List.map_append, List.eraseDups_append]
  generalize (misses.filter fun miss => miss.offset = offset).map Located.content = names
  by_cases here : miss.offset = offset
  · by_cases known : miss.content ∈ names
    · simp [here, known, List.removeAll]
    · simp [here, known, List.removeAll, List.eraseDups_cons]
  · simp [here, List.removeAll]

namespace Progress

def expectAll (progress : Progress) (misses : List (Located String)) : Progress :=
  misses.foldl (fun progress miss => progress.expect miss.content miss.offset) progress

/-- The note of what was expected tells all that was missed: where it was missed at the
furthest offset, and what. -/
structure SumsUp (progress : Progress) (misses : List (Located String)) : Prop where
  furthest : progress.furthest = furthestMiss misses
  expected : progress.expected = missedAt misses progress.furthest

theorem sumsUp_nil : ({} : Progress).SumsUp [] where
  furthest := rfl
  expected := rfl

variable {progress : Progress} {misses : List (Located String)}

/-- To note one more miss is to sum it up with the others. -/
theorem SumsUp.expect (sums : progress.SumsUp misses) (name : String) (offset : Nat) :
    (progress.expect name offset).SumsUp (misses ++ [⟨name, offset⟩]) := by
  have furthest := sums.furthest
  have expected := sums.expected
  unfold Progress.expect
  -- Further on, nothing was missed before, so what was expected is rightly forgotten. At the
  -- same offset, only a name that is new there counts.
  split
  · rename_i further
    have nothing : missedAt misses offset = [] := missedAt_eq_nil (by omega)
    constructor
    · rw [furthestMiss_concat]
      simp only
      omega
    · simp [missedAt_concat, nothing]
  · rename_i near
    have same : furthestMiss (misses ++ [⟨name, offset⟩]) = progress.furthest := by
      rw [furthestMiss_concat]
      simp only
      omega
    split
    · rename_i new
      rw [expected] at new
      refine ⟨same.symm, ?_⟩
      rw [missedAt_concat, if_pos new, ← expected]
    · rename_i old
      rw [expected] at old
      refine ⟨same.symm, ?_⟩
      rw [missedAt_concat, if_neg old, ← expected]

/-- Progress that sums up some misses sums up more of them when it is told of them. -/
theorem SumsUp.expectAll (sums : progress.SumsUp misses) (more : List (Located String)) :
    (progress.expectAll more).SumsUp (misses ++ more) := by
  induction more generalizing progress misses with
  | nil =>
      rw [List.append_nil]
      exact sums
  | cons miss more ih =>
      rw [List.append_cons]
      exact ih (sums.expect miss.content miss.offset)

/-- In whatever order something is missed, it is summed up alike but for the order of
the names. -/
theorem SumsUp.perm {progress' : Progress} {misses' : List (Located String)}
    (sums : progress.SumsUp misses) (sums' : progress'.SumsUp misses')
    (same : misses.Perm misses') :
    progress'.furthest = progress.furthest ∧
      ∀ name, name ∈ progress'.expected ↔ name ∈ progress.expected := by
  have furthest : progress'.furthest = progress.furthest := by
    rw [sums.furthest, sums'.furthest, furthestMiss_eq_foldl, furthestMiss_eq_foldl]
    exact ((same.map Located.offset).foldl_eq 0).symm
  refine ⟨furthest, fun name => ?_⟩
  rw [sums.expected, sums'.expected, mem_missedAt, mem_missedAt, furthest]
  exact same.symm.mem_iff

end Progress

/-! ### What is missed in a parse -/

/-- What an event tells to be missed. -/
def ParseEvent.miss? : ParseEvent → Option (Located String)
  | .tokenFailed token start => some ⟨token, start⟩
  | _ => none

namespace Grammar

/-- What has been missed so far, from first to last. -/
def missed (state : ParseState) : List (Located String) :=
  state.events.reverse.filterMap ParseEvent.miss?

/-- The note of a state sums up what has been missed so far. -/
def Noted (state : ParseState) : Prop :=
  state.progress.SumsUp (missed state)

/-- Where the input goes on though it should end: behind the start production, and
whitespace if that is skipped. -/
def shortStop? (grammar : Grammar) (text : Text) : Option Nat :=
  match (grammar.walkStart text).outcome with
  | .reached stop =>
      let options := grammar.options
      let last? :=
        if options.complete ∧ options.skipWhitespace then text.skipWhitespace? stop else some stop
      last?.filter fun last => options.complete && last ≠ text.size
  | _ => none

/-- All that is missed in a parse, from first to last: the tokens that fail, and then
the end of the input if the start production stops short of it. -/
def misses (grammar : Grammar) (text : Text) : List (Located String) :=
  (grammar.run text).events.filterMap ParseEvent.miss? ++
    (grammar.shortStop? text).toList.map fun stop => ⟨"end of input", stop⟩

section

variable {grammar : Grammar} {text : Text} {state state' : ParseState}

/-- Where nothing is missed and nothing noted, the note is the same summary. -/
theorem Noted.of_eq (noted : Noted state)
    (furthest : state'.progress.furthest = state.progress.furthest)
    (expected : state'.progress.expected = state.progress.expected)
    (same : missed state' = missed state) : Noted state' where
  furthest := by rw [furthest, same, noted.furthest]
  expected := by rw [expected, furthest, same, noted.expected]

/-- To report anything but a failed token is to miss nothing. -/
theorem missed_report {event : ParseEvent} (nothing : event.miss? = none) :
    missed (state.report event) = missed state := by
  simp [missed, ParseState.report, nothing]

/-- An event that is no miss needs no note. -/
theorem Noted.report {event : ParseEvent} (noted : Noted state) (nothing : event.miss? = none) :
    Noted (state.report event) :=
  noted.of_eq rfl rfl (missed_report nothing)

/-- A token that failed is noted where it failed. -/
theorem Noted.expect (noted : Noted state) (name : String) (start : Nat) :
    Noted ((state.report (.tokenFailed name start)).update (·.expect name start)) := by
  have one : missed ((state.report (.tokenFailed name start)).update (·.expect name start)) =
      missed state ++ [⟨name, start⟩] := by
    simp [missed, ParseState.report, ParseState.update, ParseEvent.miss?]
  unfold Noted
  rw [one]
  exact Progress.SumsUp.expect noted name start

/-- To match a token leaves every miss noted. -/
theorem Noted.matchToken {name : String} {pattern : Pattern} {offset : Nat} {trace : Trace}
    (noted : Noted state) :
    Noted (grammar.matchToken text name pattern offset trace state).state := by
  unfold Grammar.matchToken
  split
  · exact noted
  · rename_i start _
    split
    · exact noted.expect name start
    · split
      · exact noted
      · exact noted.report rfl

/-- To leave a production is to miss nothing. -/
theorem Noted.leaveProduction {key : ProductionAt} {refusalsBefore : Nat} {outcome : Remembered}
    {trace : Trace} (noted : Noted state) :
    Noted (grammar.leaveProduction key refusalsBefore outcome trace state).state := by
  unfold Grammar.leaveProduction
  rw [state_concludeProduction]
  have reported : Noted (state.report (.left key.production key.offset (outcome.map Prod.snd))) :=
    noted.report rfl
  split
  · exact reported.of_eq rfl rfl rfl
  · exact reported

/-- To match a production leaves every miss noted, if its walk does. -/
theorem Noted.matchProduction {resolve : Resolver Error ParseState} {expression : Expression}
    {key : ProductionAt} {trace : Trace} (keeps : Setting.Keeps { text, resolve } Noted)
    (noted : Noted state) :
    Noted (grammar.matchProduction text resolve expression key trace state).state := by
  have entered : Noted (state.update (·.enter key)) := noted.of_eq rfl rfl rfl
  have after := expression.root.walk_keeps keeps key.offset {} _ entered
  generalize walks : expression.root.walk { text, resolve } key.offset {}
    (state.update (·.enter key)) = walked at after
  have exited : Noted (walked.state.update (·.exit key)) := after.of_eq rfl rfl rfl
  cases concluded : conclusion? key.production walked with
  | none =>
      rw [matchProduction_of_not_concluded walks concluded]
      exact exited
  | some outcome =>
      rw [matchProduction_of_concluded walks concluded]
      exact exited.leaveProduction

/-- However far a parse goes back, what it has noted stays a summary of all that it has
missed. -/
theorem resolveWithin_noted (grammar : Grammar) (text : Text) (room : Nat) :
    Setting.Keeps { text, resolve := grammar.resolveWithin text room } Noted := by
  induction room using Nat.strongRecOn with
  | ind room ih =>
      intro name offset trace state noted
      have resolution := grammar.resolution text room name offset trace state
      simp only
      generalize grammar.resolveWithin text room name offset trace state = walked at resolution ⊢
      cases resolution with
      | token _ => exact noted.matchToken
      | unknown _ _ => exact noted
      | recalled _ _ _ =>
          rw [state_concludeProduction]
          exact noted.report rfl
      | limited _ _ _ => exact noted.report rfl
      | refused _ _ _ _ => exact (noted.report rfl).of_eq rfl rfl rfl
      | @entered room _ _ _ _ _ => exact noted.matchProduction (ih room (Nat.lt_succ_self room))

/-- The parse of a text leaves every miss noted. -/
theorem walkStart_noted (grammar : Grammar) (text : Text) :
    Noted (grammar.walkStart text).state := by
  rw [walkStart_eq]
  exact grammar.resolveWithin_noted text _ grammar.start 0 {} {} Progress.sumsUp_nil

/-- What is missed where the start production doesn't match, or is given up. -/
theorem misses_of_not_reached
    (unreached : ∀ stop, (grammar.walkStart text).outcome ≠ .reached stop) :
    grammar.misses text = missed (grammar.walkStart text).state := by
  have nowhere : grammar.shortStop? text = none := by
    unfold shortStop?
    split
    · exact absurd ‹_› (unreached _)
    · rfl
  unfold misses
  rw [nowhere]
  exact List.append_nil _

/-- What is missed where the start production stops short of the end. -/
theorem misses_of_short {stop last : Nat}
    (reached : (grammar.walkStart text).outcome = .reached stop)
    (stops : (if grammar.options.complete ∧ grammar.options.skipWhitespace then
      text.skipWhitespace? stop else some stop) = some last)
    (short : grammar.options.complete ∧ last ≠ text.size) :
    grammar.misses text =
      missed (grammar.walkStart text).state ++ [⟨"end of input", last⟩] := by
  have here : grammar.shortStop? text = some last := by
    unfold shortStop?
    simp only [reached, stops]
    exact Option.filter_eq_some_iff.mpr ⟨rfl, by simpa using short⟩
  unfold misses
  rw [here]
  rfl

/-- Where a parse tells what was expected, the start production has failed, or it has
matched and stopped short of the end. -/
theorem ends_of_parse_eq_error {expected : List String} {offset : Nat} (closed : grammar.Closed)
    (parsed : grammar.parse text = .error (.parseError expected offset)) :
    (grammar.walkStart text).outcome = .failed ∧
        (grammar.walkStart text).state.progress.error = .parseError expected offset ∨
      ∃ stop last, (grammar.walkStart text).outcome = .reached stop ∧ stop ≤ last ∧
        (if grammar.options.complete ∧ grammar.options.skipWhitespace then
          text.skipWhitespace? stop else some stop) = some last ∧
        (grammar.options.complete ∧ last ≠ text.size) ∧
        ((grammar.walkStart text).state.progress.expect "end of input" last).error =
          .parseError expected offset := by
  have met := walkStart_met closed text
  unfold parse run at parsed
  simp only at parsed
  cases ends : (grammar.walkStart text).outcome with
  | reached stop =>
      obtain ⟨children, trees⟩ := trees_of_walkStart closed ends
      obtain ⟨last, stops, gap⟩ := exists_end grammar (met.reached stop ends).place
      simp only [ends] at parsed
      unfold conclude at parsed
      simp only [stops, trees] at parsed
      split at parsed
      · rename_i short
        exact .inr ⟨stop, last, rfl, gap.le, stops, short, Verdict.error.inj parsed⟩
      · cases parsed
  | failed =>
      simp only [ends] at parsed
      exact .inl ⟨rfl, Verdict.error.inj parsed⟩
  | raised error =>
      simp only [ends] at parsed
      obtain ⟨⟨name, at_, other⟩, _⟩ := met.raised _ ends
      cases (Verdict.error.inj parsed).symm.trans other
  | misplaced => exact absurd ends met.placed

/-- The error of a parse that fails sums up all that it has missed. -/
theorem sumsUp_of_parse_eq_error {expected : List String} {offset : Nat} (closed : grammar.Closed)
    (parsed : grammar.parse text = .error (.parseError expected offset)) :
    offset = furthestMiss (grammar.misses text) ∧
      expected = missedAt (grammar.misses text) offset := by
  have noted := grammar.walkStart_noted text
  have told : ∃ progress : Progress, progress.SumsUp (grammar.misses text) ∧
      progress.error = .parseError expected offset := by
    rcases ends_of_parse_eq_error closed parsed with
      ⟨failed, same⟩ | ⟨stop, last, reached, _, stops, short, same⟩
    · refine ⟨_, ?_, same⟩
      rw [misses_of_not_reached (by simp [failed])]
      exact noted
    · refine ⟨_, ?_, same⟩
      rw [misses_of_short reached stops short]
      exact Progress.SumsUp.expect noted "end of input" last
  obtain ⟨progress, sums, same⟩ := told
  cases same
  exact ⟨sums.furthest, sums.expected⟩

end

end Grammar

namespace Definition

variable {definition : Definition} {grammar : Grammar}

/-- Where a parse fails, it tells what was missed at the furthest offset where anything
was missed: all the tokens whose attempts failed there, and the end of the input if the
start production stopped there, each once and in the order of the first misses. What
counts as missed is what the events of the parse tell; and those are the attempts that
were made. Whatever is noted from the start, the note is this summary of it, which
doesn't depend on the order but for the order of the names. -/
theorem parseError_sumsUp (compiled : definition.compile = .ok grammar) (text : Text) :
    (∀ expected offset, grammar.parse text = .error (.parseError expected offset) →
        offset = furthestMiss (grammar.misses text) ∧
          expected = missedAt (grammar.misses text) offset) ∧
      (∀ before name start,
        before ++ [.tokenFailed name start] <+: (grammar.run text).events ↔
          grammar.Attempts text before.reverse (.tokenFailed name start)) ∧
      ∀ misses : List (Located String), (Progress.expectAll {} misses).SumsUp misses ∧
        ∀ misses', misses.Perm misses' →
          (Progress.expectAll {} misses').furthest = (Progress.expectAll {} misses).furthest ∧
            ∀ name, name ∈ (Progress.expectAll {} misses').expected ↔
              name ∈ (Progress.expectAll {} misses).expected := by
  have closed := closed_of_compile_eq_ok compiled
  have sums : ∀ misses, (Progress.expectAll {} misses).SumsUp misses :=
    fun misses => Progress.sumsUp_nil.expectAll misses
  refine ⟨fun expected offset => Grammar.sumsUp_of_parse_eq_error closed, ?_, ?_⟩
  · intro before name start
    have isAttempt : (ParseEvent.tokenFailed name start).IsAttempt := trivial
    rw [Grammar.attempts_iff closed isAttempt, ← List.reverse_prefix, List.reverse_cons,
      List.reverse_reverse]
    rfl
  · exact fun misses => ⟨sums misses, fun misses' same => (sums misses).perm (sums misses') same⟩

/-- Behind the sum that is matched there is another number. It could go on with a plus
there, or end. -/
theorem sums_sumsUp :
    ∃ grammar, sums.compile = .ok grammar ∧
      grammar.parse "1 + 2 3".toList = .error (.parseError ["plus", "end of input"] 6) ∧
      furthestMiss (grammar.misses "1 + 2 3".toList) = 6 ∧
      missedAt (grammar.misses "1 + 2 3".toList) 6 = ["plus", "end of input"] := by
  obtain ⟨grammar, compiled, parsed⟩ := exists_of_stopsWith
    (show sums.stopsWith "1 + 2 3".toList (.parseError ["plus", "end of input"] 6) = true by
      decide +kernel)
  obtain ⟨told, _, _⟩ := parseError_sumsUp compiled "1 + 2 3".toList
  obtain ⟨furthest, expected⟩ := told _ _ parsed
  exact ⟨grammar, compiled, parsed, furthest.symm, expected.symm⟩

end Definition

end TextGrammar
