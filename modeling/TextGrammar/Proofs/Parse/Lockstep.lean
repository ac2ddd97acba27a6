import TextGrammar.Proofs.Parse.Memory

/-!
Two parses side by side.

A `Lockstep` says how two parses correspond, each of its own text with its own
grammar: where an offset of the first one lies in the second one, what becomes of
its trees, and what the progress of both has in common. If tokens correspond,
and the expressions of productions once these are entered, then the parses stay
in step (`Lockstep.Lawful.resolveWithin`): they recall, refuse and enter the same
productions, one after another, and end alike. Where one of them has room left and
the other one has not, the one that runs into the limit has to be lost.
-/

namespace TextGrammar

/-- How two parses correspond. -/
structure Lockstep where
  /-- The kinds of nodes that the parses may meet. -/
  meets : Kind → Prop
  place : Nat → Nat → Prop
  /-- The tree of the second parse where the first one has a tree. -/
  tree : ParseTree → ParseTree
  progress : Progress → Progress → Prop
  error : Error → Error → Prop
  /-- The errors after which nothing is said of the second parse. -/
  lost : Error → Prop
  /-- The errors after which nothing is said of the first parse. -/
  lost' : Error → Prop

namespace Lockstep

/-- The walks of two parses that are in step. What groups capture is of no account
in a parse. -/
def likeness (l : Lockstep) : Likeness Error ParseState Error ParseState where
  meets := l.meets
  place := l.place
  trace := fun trace trace' => trace'.trees = trace.trees.map l.tree
  state := fun state state' => l.progress state.progress state'.progress
  error := l.error
  lost := l.lost
  off := fun _ => False
  lost' := l.lost'
  off' := fun _ => False

/-- Productions that have come to the same: a match of each, or none. -/
def Outcomes (l : Lockstep) : Remembered → Remembered → Prop :=
  Option.Rel fun result result' => l.place result.1 result'.1 ∧ result'.2 = l.tree result.2

/-- The expressions are walked alike from places that correspond, while their
production is active. -/
def Bodies (l : Lockstep) (grammar grammar' : Grammar) (text text' : Text) (name : String)
    (expression expression' : Expression) : Prop :=
  ∀ {room room' offset offset' state state'},
    l.likeness.Lawful { text, resolve := grammar.resolveWithin text room }
      { text := text', resolve := grammar'.resolveWithin text' room' } →
    l.place offset offset' → l.likeness.state state state' →
    ⟨name, offset⟩ ∈ state.progress.active →
    l.likeness.Alike
      (expression.root.walk { text, resolve := grammar.resolveWithin text room } offset {} state)
      (expression'.root.walk { text := text', resolve := grammar'.resolveWithin text' room' }
        offset' {} state')

/-- What the steps of a parse do to corresponding progress, with or without memory. -/
structure Steady (l : Lockstep) (memoize : Bool) : Prop where
  active_iff : ∀ {progress progress' name offset offset'}, l.progress progress progress' →
    l.place offset offset' →
    (⟨name, offset⟩ ∈ progress.active ↔ ⟨name, offset'⟩ ∈ progress'.active)
  refuse : ∀ {progress progress'}, l.progress progress progress' →
    l.progress progress.refuse progress'.refuse
  enter : ∀ {progress progress' name offset offset'}, l.progress progress progress' →
    l.place offset offset' →
    l.progress (progress.enter ⟨name, offset⟩) (progress'.enter ⟨name, offset'⟩)
  exit : ∀ {before before' after after' name offset offset'}, l.progress before before' →
    l.progress after after' → l.place offset offset' →
    after.active = ⟨name, offset⟩ :: before.active →
    after'.active = ⟨name, offset'⟩ :: before'.active →
    l.progress (after.exit ⟨name, offset⟩) (after'.exit ⟨name, offset'⟩)
  refusals_iff : memoize = true → ∀ {before before' after after'}, l.progress before before' →
    l.progress after after' →
    (after.refusals = before.refusals ↔ after'.refusals = before'.refusals)
  recalls : memoize = true → ∀ {progress progress' name offset offset'},
    l.progress progress progress' → l.place offset offset' →
    Option.Rel l.Outcomes (progress.remembered? ⟨name, offset⟩)
      (progress'.remembered? ⟨name, offset'⟩)
  remember : memoize = true → ∀ {progress progress' name offset offset' outcome outcome'},
    l.progress progress progress' → l.place offset offset' → l.Outcomes outcome outcome' →
    l.progress (progress.remember ⟨name, offset⟩ outcome)
      (progress'.remember ⟨name, offset'⟩ outcome')

/-- What keeps two parses in step. -/
structure Lawful (l : Lockstep) (grammar grammar' : Grammar) (text text' : Text) : Prop where
  memoize : grammar'.options.memoize = grammar.options.memoize
  steady : l.Steady grammar.options.memoize
  place_iff : ∀ {one one' two two'}, l.place one one' → l.place two two' →
    (one = two ↔ one' = two')
  tree_production : ∀ name children,
    l.tree (.production name children) = .production name (children.map l.tree)
  limit : ∀ {name offset offset'}, l.place offset offset' →
    l.error (.recursionLimit name offset) (.recursionLimit name offset')
  character : ∀ {kind offset offset'}, l.meets kind →
    (∃ chars, kind = .single chars) ∨ (∃ items, kind = .set items true) →
    l.place offset offset' → ∀ test,
    l.likeness.AlikeEnds (text.matchChar test offset) (text'.matchChar test offset')
  boundary : ∀ {offset offset'}, l.meets .wordBoundary → l.place offset offset' →
    l.likeness.AlikeEnds (text.matchWordBoundary offset) (text'.matchWordBoundary offset')
  declares : ∀ {name}, l.meets (.reference name) → grammar.Declares name
  token : ∀ {name pattern}, l.meets (.reference name) → grammar.token? name = some pattern →
    ∃ pattern', grammar'.token? name = some pattern' ∧
      ∀ {offset offset' trace trace' state state'}, l.place offset offset' →
        l.likeness.trace trace trace' → l.likeness.state state state' →
        l.likeness.Alike (grammar.matchToken text name pattern offset trace state)
          (grammar'.matchToken text' name pattern' offset' trace' state')
  production : ∀ {name expression}, l.meets (.reference name) → grammar.token? name = none →
    grammar.production? name = some expression →
    grammar'.token? name = none ∧ ∃ expression', grammar'.production? name = some expression' ∧
      l.Bodies grammar grammar' text text' name expression expression'

variable {l : Lockstep} {grammar grammar' : Grammar} {text text' : Text} {name : String}
  {offset offset' : Nat} {trace trace' : Trace} {state state' : ParseState}
  {outcome outcome' : Remembered}

/-! ### Conclusions -/

/-- Expressions that are walked alike let their production come to the same. -/
theorem conclusion?_rel {walked walked' : ParseWalk} (lawful : l.Lawful grammar grammar' text text')
    (close : l.likeness.Close walked walked') (name : String) :
    Option.Rel l.Outcomes (Grammar.conclusion? name walked)
      (Grammar.conclusion? name walked') := by
  obtain ⟨ends, after, state⟩ := walked
  obtain ⟨ends', after', state'⟩ := walked'
  obtain ⟨ends, same, _⟩ := close
  have trees : after'.trees = after.trees.map l.tree := same
  cases ends with
  | reached place =>
      refine .some (.some ⟨place, ?_⟩)
      rw [lawful.tree_production, List.map_reverse, ← trees]
  | failed => exact .some .none
  | raised _ => exact .none

/-- Outcomes that correspond are concluded alike. -/
theorem close_concludeProduction (outcomes : l.Outcomes outcome outcome')
    (traces : l.likeness.trace trace trace') (states : l.likeness.state state state') :
    l.likeness.Close (Grammar.concludeProduction outcome trace state)
      (Grammar.concludeProduction outcome' trace' state') := by
  cases outcomes with
  | none => exact ⟨.failed, traces, states⟩
  | some same =>
      refine ⟨.reached same.1, ?_, states⟩
      have traces : trace'.trees = trace.trees.map l.tree := traces
      simp only [likeness, Grammar.concludeProduction, Trace.addTree, List.map_cons, traces, same.2]

/-- Productions that have come to the same are left alike. -/
theorem close_leaveProduction (lawful : l.Lawful grammar grammar' text text')
    (place : l.place offset offset') (outcomes : l.Outcomes outcome outcome')
    (traces : l.likeness.trace trace trace') {before before' : Progress}
    (started : l.progress before before') (states : l.likeness.state state state') :
    l.likeness.Close
      (grammar.leaveProduction ⟨name, offset⟩ before.refusals outcome trace state)
      (grammar'.leaveProduction ⟨name, offset'⟩ before'.refusals outcome' trace' state') := by
  obtain ⟨after, leaves, progress⟩ := grammar.leaveProduction_eq ⟨name, offset⟩ before.refusals
    outcome trace state
  obtain ⟨after', leaves', progress'⟩ := grammar'.leaveProduction_eq ⟨name, offset'⟩
    before'.refusals outcome' trace' state'
  rw [leaves, leaves']
  refine close_concludeProduction outcomes traces ?_
  have states : l.progress state.progress state'.progress := states
  have kept : l.progress after.progress after'.progress := by
    rw [progress, progress', lawful.memoize]
    cases memoizes : grammar.options.memoize with
    | false => simpa using states
    | true =>
        have steady := lawful.steady
        rw [memoizes] at steady
        have iff := steady.refusals_iff rfl started states
        by_cases unrefused : state.progress.refusals = before.refusals
        · rw [if_pos ⟨rfl, unrefused⟩, if_pos ⟨rfl, iff.mp unrefused⟩]
          exact steady.remember rfl states place outcomes
        · rw [if_neg (fun both => unrefused both.2),
            if_neg (fun both => unrefused (iff.mpr both.2))]
          exact states
  exact kept

/-! ### Productions -/

/-- What is recalled in one parse is recalled in the other one. -/
theorem remembered?_rel (lawful : l.Lawful grammar grammar' text text') (name : String)
    (place : l.place offset offset') {progress progress' : Progress}
    (states : l.progress progress progress') :
    Option.Rel l.Outcomes (grammar.remembered? ⟨name, offset⟩ progress)
      (grammar'.remembered? ⟨name, offset'⟩ progress') := by
  have steady := lawful.steady
  unfold Grammar.remembered?
  rw [lawful.memoize]
  cases memoizes : grammar.options.memoize with
  | false => exact .none
  | true =>
      rw [memoizes] at steady
      exact steady.recalls rfl states place

/-- What is forgotten in one parse is forgotten in the other one. -/
theorem Lawful.remembered?_eq_none (lawful : l.Lawful grammar grammar' text text')
    (place : l.place offset offset') (states : l.likeness.state state state')
    (forgotten : grammar.remembered? ⟨name, offset⟩ state.progress = none) :
    grammar'.remembered? ⟨name, offset'⟩ state'.progress = none := by
  have same := remembered?_rel lawful name place states
  rw [forgotten] at same
  generalize grammar'.remembered? ⟨name, offset'⟩ state'.progress = found at same ⊢
  cases same
  rfl

/-- Productions are matched alike if their expressions are walked alike. -/
theorem alike_matchProduction (lawful : l.Lawful grammar grammar' text text')
    {expression expression' : Expression} (room room' : Nat) (place : l.place offset offset')
    (traces : l.likeness.trace trace trace') (states : l.likeness.state state state')
    (alike : l.likeness.Alike
      (expression.root.walk { text, resolve := grammar.resolveWithin text room } offset {}
        (state.update (·.enter ⟨name, offset⟩)))
      (expression'.root.walk { text := text', resolve := grammar'.resolveWithin text' room' }
        offset' {} (state'.update (·.enter ⟨name, offset'⟩)))) :
    l.likeness.Alike
      (grammar.matchProduction text (grammar.resolveWithin text room) expression ⟨name, offset⟩
        trace state)
      (grammar'.matchProduction text' (grammar'.resolveWithin text' room') expression'
        ⟨name, offset'⟩ trace' state') := by
  have grows := grammar.walk_grows text room expression.root offset {}
    (state.update (·.enter ⟨name, offset⟩))
  have grows' := grammar'.walk_grows text' room' expression'.root offset' {}
    (state'.update (·.enter ⟨name, offset'⟩))
  generalize walks : expression.root.walk
    { text, resolve := grammar.resolveWithin text room } offset {}
    (state.update (·.enter ⟨name, offset⟩)) = walked at alike grows
  generalize walks' : expression'.root.walk
    { text := text', resolve := grammar'.resolveWithin text' room' } offset' {}
    (state'.update (·.enter ⟨name, offset'⟩)) = walked' at alike grows'
  rcases alike with gone | gone | close
  · exact .inl (Grammar.gone_matchProduction walks gone)
  · exact .inr (.inl (Grammar.gone_matchProduction walks' gone))
  · right; right
    have left : l.likeness.state (walked.state.update (·.exit ⟨name, offset⟩))
        (walked'.state.update (·.exit ⟨name, offset'⟩)) :=
      lawful.steady.exit states close.state place grows.active grows'.active
    have same := conclusion?_rel lawful close name
    generalize concluded : Grammar.conclusion? name walked = found at same
    generalize concluded' : Grammar.conclusion? name walked' = found' at same
    cases same with
    | none =>
        rw [Grammar.matchProduction_of_not_concluded walks concluded,
          Grammar.matchProduction_of_not_concluded walks' concluded']
        exact ⟨close.outcome, traces, left⟩
    | some outcomes =>
        rw [Grammar.matchProduction_of_concluded walks concluded,
          Grammar.matchProduction_of_concluded walks' concluded']
        exact close_leaveProduction lawful place outcomes traces states left

/-! ### Names -/

/-- Names are resolved alike, whatever room is left: only a parse with less room
than the other one may have to be lost at the limit. -/
theorem Lawful.resolveWithin (lawful : l.Lawful grammar grammar' text text') (room : Nat) :
    ∀ room', (room < room' → ∀ name offset, l.lost (.recursionLimit name offset)) →
      (room' < room → ∀ name offset, l.lost' (.recursionLimit name offset)) →
      l.likeness.Lawful { text, resolve := grammar.resolveWithin text room }
        { text := text', resolve := grammar'.resolveWithin text' room' } := by
  induction room using Nat.strongRecOn with
  | ind room ih =>
      intro room' short short'
      refine ⟨lawful.place_iff, fun trees _ _ => trees, lawful.character, lawful.boundary, ?_,
        fun _ _ _ _ off => off, fun _ _ _ _ off => off⟩
      intro name offset offset' trace trace' state state' allowed place traces states
      have resolution := grammar.resolution text room name offset trace state
      simp only
      generalize grammar.resolveWithin text room name offset trace state = walked at resolution ⊢
      cases resolution with
      | token found =>
          obtain ⟨pattern', found', alike⟩ := lawful.token allowed found
          rw [Grammar.resolveWithin_of_token found']
          exact alike place traces states
      | unknown noToken noProduction =>
          rcases lawful.declares allowed with ⟨pattern, found⟩ | ⟨expression, found⟩
          · cases noToken.symm.trans found
          · cases noProduction.symm.trans found
      | @recalled _ expression outcome noToken found recalled =>
          obtain ⟨noToken', expression', found', _⟩ := lawful.production allowed noToken found
          have same := remembered?_rel lawful name place states
          rw [recalled] at same
          generalize recalled' : grammar'.remembered? ⟨name, offset'⟩ state'.progress = outcome'
            at same
          cases same with
          | some outcomes =>
              rw [Grammar.resolveWithin_of_remembered noToken' found' recalled']
              exact .inr (.inr (close_concludeProduction outcomes traces states))
      -- The limit comes before productions in progress, so a parse that has no room left is
      -- lost even where the other one would refuse the production.
      | @limited expression noToken found forgotten =>
          obtain ⟨noToken', expression', found', _⟩ := lawful.production allowed noToken found
          have forgotten' := lawful.remembered?_eq_none place states forgotten
          cases room' with
          | zero =>
              rw [Grammar.resolveWithin_zero noToken' found' forgotten']
              exact .inr (.inr ⟨.raised (lawful.limit place), traces, states⟩)
          | succ room' => exact .inl (.inr (.inl ⟨_, rfl, short (Nat.succ_pos room') _ _⟩))
      | @refused room expression noToken found forgotten active =>
          obtain ⟨noToken', expression', found', _⟩ := lawful.production allowed noToken found
          have forgotten' := lawful.remembered?_eq_none place states forgotten
          cases room' with
          | zero =>
              rw [Grammar.resolveWithin_zero noToken' found' forgotten']
              exact .inr (.inl (.inr (.inl ⟨_, rfl, short' (Nat.succ_pos room) _ _⟩)))
          | succ room' =>
              have active' := (lawful.steady.active_iff states place).mp active
              rw [Grammar.resolveWithin_of_active noToken' found' forgotten' active']
              exact .inr (.inr ⟨.failed, traces, lawful.steady.refuse states⟩)
      | @entered room expression noToken found forgotten inactive =>
          obtain ⟨noToken', expression', found', bodies⟩ := lawful.production allowed noToken found
          have forgotten' := lawful.remembered?_eq_none place states forgotten
          cases room' with
          | zero =>
              rw [Grammar.resolveWithin_zero noToken' found' forgotten']
              exact .inr (.inl (.inr (.inl ⟨_, rfl, short' (Nat.succ_pos room) _ _⟩)))
          | succ room' =>
              have inactive' := mt (lawful.steady.active_iff states place).mpr inactive
              rw [Grammar.resolveWithin_of_inactive noToken' found' forgotten' inactive']
              have inside := ih room (Nat.lt_succ_self room) room'
                (fun less => short (Nat.succ_lt_succ less))
                (fun less => short' (Nat.succ_lt_succ less))
              exact alike_matchProduction lawful room room' place traces states
                (bodies inside place (lawful.steady.enter states place) List.mem_cons_self)

end Lockstep

end TextGrammar
