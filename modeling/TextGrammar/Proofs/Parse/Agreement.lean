import TextGrammar.Proofs.Parse.Lockstep
import TextGrammar.Proofs.Parse.Transaction
import TextGrammar.Proofs.Parse.Verdict
import TextGrammar.Proofs.Walk.Renumbering

/-!
Parses of one text with two grammars.

Grammars are akin on some names if these stand for the same tokens in both, and
if the grammars have the same start and the same options, but for the recursion
limit. Where the productions are the same as well, but for the numbers of groups,
and refer to such names only, the two parses come to the same verdict, unless the
one with less room runs into its limit (`Grammar.Akin.parse_eq`).
-/

namespace TextGrammar

/-! ### Progress -/

/-- The same progress, but perhaps for how often productions were refused, which
is of no account unless productions are remembered. -/
def Progress.Agrees (memoize : Bool) (progress progress' : Progress) : Prop :=
  ∃ refusals, progress' = { progress with refusals } ∧
    (memoize = true → refusals = progress.refusals)

namespace Progress.Agrees

variable {memoize : Bool} {progress progress' : Progress}

theorem expect (agrees : progress.Agrees memoize progress') (name : String) (offset : Nat) :
    (progress.expect name offset).Agrees memoize (progress'.expect name offset) := by
  obtain ⟨refusals, rfl, same⟩ := agrees
  refine ⟨refusals, ?_, by rwa [refusals_expect]⟩
  unfold Progress.expect
  simp only
  split
  · rfl
  · split <;> rfl

theorem error_eq (agrees : progress.Agrees memoize progress') :
    progress'.error = progress.error := by
  obtain ⟨refusals, rfl, _⟩ := agrees
  rfl

end Progress.Agrees

/-! ### In step -/

namespace Lockstep

/-- Two parses of one text that meet certain names. -/
def agreement (names : String → Prop) (memoize : Bool) (lost : Error → Prop) : Lockstep where
  meets := fun kind => ∀ name, kind = .reference name → names name
  place := Eq
  tree := id
  progress := Progress.Agrees memoize
  error := Eq
  lost := lost
  lost' := fun _ => False

variable {names : String → Prop} {memoize : Bool} {lost : Error → Prop}

theorem outcomes_agreement_iff {outcome outcome' : Remembered} :
    (agreement names memoize lost).Outcomes outcome outcome' ↔ outcome' = outcome := by
  constructor
  · rintro (⟨same, tree⟩ | _)
    · exact congrArg some (Prod.ext same.symm tree)
    · rfl
  · rintro rfl
    cases outcome' with
    | none => exact .none
    | some result => exact .some ⟨rfl, rfl⟩

theorem steady_agreement : (agreement names memoize lost).Steady memoize where
  active_iff := by
    rintro progress _ name offset _ ⟨refusals, rfl, _⟩ rfl
    exact Iff.rfl
  refuse := by
    rintro progress _ ⟨refusals, rfl, same⟩
    exact ⟨refusals + 1, rfl, fun memoizes => congrArg (· + 1) (same memoizes)⟩
  enter := by
    rintro progress _ name offset _ ⟨refusals, rfl, same⟩ rfl
    exact ⟨refusals, rfl, same⟩
  exit := by
    rintro before before' after _ name offset _ _ ⟨refusals, rfl, same⟩ rfl _ _
    exact ⟨refusals, rfl, same⟩
  refusals_iff := by
    rintro memoizes before _ after _ ⟨one, rfl, same⟩ ⟨two, rfl, same'⟩
    simp only [same memoizes, same' memoizes]
  recalls := by
    rintro _ progress _ name offset _ ⟨refusals, rfl, _⟩ rfl
    unfold Progress.remembered?
    cases progress.memo.lookup ⟨name, offset⟩ with
    | none => exact .none
    | some outcome => exact .some (outcomes_agreement_iff.mpr rfl)
  remember := by
    rintro _ progress _ name offset _ outcome outcome' ⟨refusals, rfl, same⟩ rfl outcomes
    rw [outcomes_agreement_iff.mp outcomes]
    exact ⟨refusals, rfl, same⟩

/-- Walks that resemble walks that have gone alike have gone alike as well. -/
theorem alike_of_resembles {l : Lockstep} {walked walked' other other' : ParseWalk}
    (alike : l.likeness.Alike walked walked') (resembles : walked.Resembles other)
    (resembles' : walked'.Resembles other') : l.likeness.Alike other other' := by
  obtain ⟨outcome, trace, state⟩ := other
  obtain ⟨outcome', trace', state'⟩ := other'
  obtain ⟨same, trees, states⟩ := resembles
  obtain ⟨same', trees', states'⟩ := resembles'
  simp only at same trees states same' trees' states'
  subst same states same' states'
  rcases alike with gone | gone | ⟨ends, traces, states⟩
  · exact .inl gone
  · exact .inr (.inl gone)
  · refine .inr (.inr ⟨ends, ?_, states⟩)
    have traces : walked'.trace.trees = walked.trace.trees.map l.tree := traces
    exact trees'.trans (traces.trans (congrArg _ trees.symm))

end Lockstep

namespace Grammar

variable {grammar grammar' : Grammar} {names : String → Prop} {lost : Error → Prop} {text : Text}

/-- What has been captured is of no account to a parse. -/
theorem heedless_resolveWithin (grammar : Grammar) (text : Text) (room : Nat) :
    Setting.Heedless { text, resolve := grammar.resolveWithin text room } := by
  intro name offset trace trace' state same
  obtain ⟨emitted, _, replies⟩ := grammar.replies_resolveWithin text room name offset state
  simp only at replies ⊢
  rw [replies trace, replies trace']
  exact ⟨rfl, by simp only [Trace.extend, same], rfl⟩

/-- The grammars have the same start and, but for the recursion limit, the same
options, and certain names stand for the same tokens. -/
structure Akin (grammar : Grammar) (names : String → Prop) (grammar' : Grammar) : Prop where
  closed : grammar.Closed
  closed' : grammar'.Closed
  options : { grammar'.options with recursionLimit := grammar.options.recursionLimit } =
    grammar.options
  start : grammar'.start = grammar.start
  named : names grammar.start
  declares : ∀ {name}, names name → grammar.Declares name
  token : ∀ {name}, names name → grammar'.token? name = grammar.token? name

namespace Akin

theorem memoize (akin : grammar.Akin names grammar') :
    grammar'.options.memoize = grammar.options.memoize := by
  rw [← akin.options]

theorem skipWhitespace (akin : grammar.Akin names grammar') :
    grammar'.options.skipWhitespace = grammar.options.skipWhitespace := by
  rw [← akin.options]

theorem complete (akin : grammar.Akin names grammar') :
    grammar'.options.complete = grammar.options.complete := by
  rw [← akin.options]

/-- Tokens are matched alike. -/
theorem alike_matchToken (akin : grammar.Akin names grammar') {name : String} {pattern : Pattern}
    {offset : Nat} {trace trace' : Trace} {state state' : ParseState}
    (trees : trace'.trees = trace.trees)
    (agrees : state.progress.Agrees grammar.options.memoize state'.progress) :
    (Lockstep.agreement names grammar.options.memoize lost).likeness.Alike
      (grammar.matchToken text name pattern offset trace state)
      (grammar'.matchToken text name pattern offset trace' state') := by
  have starts : grammar'.tokenStart? text offset = grammar.tokenStart? text offset := by
    unfold tokenStart?
    rw [akin.skipWhitespace]
  have traces : trace'.trees = trace.trees.map id := by rw [List.map_id, trees]
  unfold matchToken
  rw [starts]
  split
  · exact .inl (.inl rfl)
  · rename_i start _
    split
    · exact .inr (.inr ⟨.failed, traces, agrees.expect name start⟩)
    · split
      · exact .inl (.inl rfl)
      · refine .inr (.inr ⟨.reached rfl, ?_, agrees⟩)
        simp [Lockstep.likeness, Lockstep.agreement, Trace.addTree, trees]

/-- Akin grammars parse in step if the expressions of their productions are walked
alike. -/
theorem lawful (akin : grammar.Akin names grammar')
    (bodies : ∀ {name expression}, names name → grammar.production? name = some expression →
      ∃ expression', grammar'.production? name = some expression' ∧
        (Lockstep.agreement names grammar.options.memoize lost).Bodies grammar grammar' text text
          name expression expression') :
    (Lockstep.agreement names grammar.options.memoize lost).Lawful grammar grammar' text text where
  memoize := akin.memoize
  steady := Lockstep.steady_agreement
  place_iff := by
    rintro one _ two _ rfl rfl
    exact Iff.rfl
  tree_production := by
    intro name children
    rw [Lockstep.agreement, List.map_id]
    rfl
  limit := by
    rintro name offset _ rfl
    rfl
  character := by
    rintro kind offset _ _ _ rfl test
    exact Likeness.alikeEnds_matchChar (fun _ => rfl) test
  boundary := by
    rintro offset _ _ rfl
    exact Likeness.alikeEnds_matchWordBoundary fun _ => rfl
  declares := fun meets => akin.declares (meets _ rfl)
  token := by
    intro name pattern meets found
    refine ⟨pattern, (akin.token (meets name rfl)).trans found, ?_⟩
    rintro offset _ trace trace' state state' rfl traces agrees
    have traces : trace'.trees = trace.trees.map id := traces
    exact akin.alike_matchToken (by rw [traces, List.map_id]) agrees
  production := by
    intro name expression meets noToken found
    exact ⟨(akin.token (meets name rfl)).trans noToken, bodies (meets name rfl) found⟩

/-- What is said at the end is the same. -/
theorem conclude_eq (akin : grammar.Akin names grammar') {trace trace' : Trace}
    {progress progress' : Progress} (stop : Nat) (trees : trace'.trees = trace.trees)
    (agrees : progress.Agrees grammar.options.memoize progress') :
    grammar'.conclude text stop trace' progress' = grammar.conclude text stop trace progress := by
  have same : ∀ last, (progress'.expect "end of input" last).error =
      (progress.expect "end of input" last).error :=
    fun last => (agrees.expect "end of input" last).error_eq
  unfold conclude
  simp only [akin.complete, akin.skipWhitespace, trees, same]

/-- Parses that stay in step come to the same verdict, unless the first one is lost. -/
theorem parse_eq_of_lawful (akin : grammar.Akin names grammar') (lost : Error → Prop)
    (lawful : (Lockstep.agreement names grammar.options.memoize lost).Lawful grammar grammar'
      text text)
    (limit : grammar.options.recursionLimit ≤ grammar'.options.recursionLimit)
    (limited : grammar.options.recursionLimit < grammar'.options.recursionLimit →
      ∀ name offset, lost (.recursionLimit name offset))
    (found : ∀ error, lost error → grammar.parse text ≠ .error error) :
    grammar'.parse text = grammar.parse text := by
  have alike : (Lockstep.agreement names grammar.options.memoize lost).likeness.Alike
      (grammar.walkStart text) (grammar'.walkStart text) := by
    rw [walkStart_eq, walkStart_eq, akin.start]
    refine (lawful.resolveWithin _ _ limited (fun less => absurd limit (by omega))).reference
      ?_ rfl rfl ⟨0, rfl, fun _ => rfl⟩
    rintro _ ⟨⟩
    exact akin.named
  have kept : ∀ error, lost error → (grammar.walkStart text).outcome ≠ .raised error := by
    intro error isLost raised
    apply found error isLost
    unfold parse run
    simp only [raised]
  have close := alike.close (walkStart_met akin.closed text).placed kept id
    (walkStart_met akin.closed' text).placed nofun id
  unfold parse run
  simp only
  generalize grammar.walkStart text = walked at close ⊢
  generalize grammar'.walkStart text = walked' at close ⊢
  obtain ⟨outcome, trace, state⟩ := walked
  obtain ⟨outcome', trace', state'⟩ := walked'
  obtain ⟨ends, traces, agrees⟩ := close
  have trees : trace'.trees = trace.trees := by rw [← List.map_id trace.trees]; exact traces
  have agrees : state.progress.Agrees grammar.options.memoize state'.progress := agrees
  cases ends with
  | reached place =>
      cases place
      exact akin.conclude_eq _ trees agrees
  | failed => exact congrArg Verdict.error agrees.error_eq
  | raised same => exact congrArg Verdict.error (Eq.symm same)

/-- Akin grammars whose productions are walked with the same result, but for what groups
capture, come to the same verdict, unless the lower one of their limits is reached. -/
theorem parse_eq_of_resembles (akin : grammar.Akin names grammar')
    (productions : ∀ {name expression}, names name → grammar.production? name = some expression →
      ∃ expression', grammar'.production? name = some expression' ∧ ∀ room offset state,
        (expression.root.walk { text, resolve := grammar'.resolveWithin text room }
            offset {} state).Resembles
          (expression'.root.walk { text, resolve := grammar'.resolveWithin text room }
            offset {} state))
    (inside : ∀ {name expression}, names name → grammar.production? name = some expression →
      ∀ node ∈ expression.root.visit, ∀ target, node.kind = .reference target → names target)
    (limit : grammar.options.recursionLimit ≤ grammar'.options.recursionLimit)
    (unlimited : grammar.options.recursionLimit < grammar'.options.recursionLimit →
      ∀ name offset, grammar.parse text ≠ .error (.recursionLimit name offset)) :
    grammar'.parse text = grammar.parse text := by
  refine akin.parse_eq_of_lawful (fun error => IsLimit error ∧
    grammar.options.recursionLimit < grammar'.options.recursionLimit) (akin.lawful ?_) limit ?_ ?_
  · intro name expression named found
    obtain ⟨expression', found', resembles⟩ := productions named found
    refine ⟨expression', found', ?_⟩
    rintro room room' offset _ state state' lawful rfl agrees _
    have alike := expression.root.walk_alike lawful (inside named found) offset offset {} {}
      state state' rfl rfl agrees
    exact Lockstep.alike_of_resembles alike (.refl _) (resembles room' offset state')
  · intro less name offset
    exact ⟨⟨name, offset, rfl⟩, less⟩
  · rintro error ⟨⟨name, offset, rfl⟩, less⟩
    exact unlimited less name offset

/-- Akin grammars whose productions are the same, but for the numbers of groups,
come to the same verdict, unless the lower one of their limits is reached. -/
theorem parse_eq (akin : grammar.Akin names grammar')
    (productions : ∀ {name expression}, names name → grammar.production? name = some expression →
      ∃ expression', grammar'.production? name = some expression' ∧
        expression'.root.unnumbered = expression.root.unnumbered)
    (inside : ∀ {name expression}, names name → grammar.production? name = some expression →
      ∀ node ∈ expression.root.visit, ∀ target, node.kind = .reference target → names target)
    (limit : grammar.options.recursionLimit ≤ grammar'.options.recursionLimit)
    (unlimited : grammar.options.recursionLimit < grammar'.options.recursionLimit →
      ∀ name offset, grammar.parse text ≠ .error (.recursionLimit name offset)) :
    grammar'.parse text = grammar.parse text := by
  refine akin.parse_eq_of_resembles ?_ inside limit unlimited
  intro name expression named found
  obtain ⟨expression', found', same⟩ := productions named found
  exact ⟨expression', found', fun room offset => Sequence.walk_of_unnumbered_eq
    (grammar'.heedless_resolveWithin text room) same offset {}⟩

end Akin

end Grammar

end TextGrammar
