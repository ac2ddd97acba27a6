import TextGrammar.Lexer.Cursor
import TextGrammar.Proofs.Pattern.Extent
import TextGrammar.Proofs.Tree.Layout

/-!
How a lexer takes a text apart.

`Lexer.Finds` says what comes next after an offset, without looking for it: the end of
the text, the token of the first rule that has a non-empty match, or a character where
no rule has one. `Lexer.Splits` puts such steps together. A lexer splits every text in
exactly one way (`Lexer.tokensFrom_eq_iff`), and to read its tokens one at a time gives
them, then the error if there is one, and nothing more (`Lexer.Splits.read?_eq`).
-/

namespace TextGrammar

/-- A token as a leaf without a name. -/
def Token.leaf {κ : Type} (token : Token κ) : ParseTree :=
  .leaf "" token.value token.index

namespace Lexer

variable {κ : Type}

/-- The characters that a lexer passes over. -/
def Passes (lexer : Lexer κ) (c : Char) : Prop :=
  lexer.skipWhitespace = true ∧ isWhitespace c = true

/-- From an offset a lexer goes on to another, over all that it passes over there. -/
structure Skips (lexer : Lexer κ) (text : Text) (offset start : Nat) : Prop where
  gap : text.Blank lexer.Passes offset start
  stops : ∀ c rest, text.rest? start = some (c :: rest) → ¬ lexer.Passes c

/-- A rule has no match at an offset other than an empty one. -/
def Barren (text : Text) (offset : Nat) (rule : κ × Pattern) : Prop :=
  ∀ m, rule.2.matchAt? text offset = some m → m.isEmpty = true

/-- The first of several rules that isn't barren at an offset is one for the kind, and
has the match. -/
def Wins (rules : List (κ × Pattern)) (text : Text) (offset : Nat) (kind : κ) (m : Match) :
    Prop :=
  ∃ before pattern after, rules = before ++ (kind, pattern) :: after ∧
    (∀ rule ∈ before, Barren text offset rule) ∧
    pattern.matchAt? text offset = some m ∧ m.isEmpty = false

/-- What a lexer has to find from an offset on. -/
inductive Finds (lexer : Lexer κ) (text : Text) (offset : Nat) : Step κ → Prop where
  | done : lexer.Skips text offset text.size → Finds lexer text offset .done
  | stray {start : Nat} {c : Char} {rest : Text} :
      lexer.Skips text offset start → text.rest? start = some (c :: rest) →
      (∀ rule ∈ lexer.rules, Barren text start rule) →
      Finds lexer text offset (.stray ⟨c, start⟩)
  | token {start : Nat} {kind : κ} {m : Match} {value : Text} :
      lexer.Skips text offset start → Wins lexer.rules text start kind m →
      text.slice? start m.stop = some value →
      Finds lexer text offset (.token ⟨kind, String.ofList value, start⟩ m.stop)

/-- The tokens that a text is split into from an offset on, and the character that ends
them early, if one does. -/
inductive Splits (lexer : Lexer κ) (text : Text) : Nat → List (Token κ) → Option Stray → Prop where
  | done {offset : Nat} : lexer.Finds text offset .done → Splits lexer text offset [] none
  | stray {offset : Nat} {found : Stray} :
      lexer.Finds text offset (.stray found) → Splits lexer text offset [] (some found)
  | token {offset stop : Nat} {found : Token κ} {tokens : List (Token κ)} {stray : Option Stray} :
      lexer.Finds text offset (.token found stop) → Splits lexer text stop tokens stray →
      Splits lexer text offset (found :: tokens) stray

variable {lexer : Lexer κ} {rules : List (κ × Pattern)} {text : Text} {offset start stop : Nat}
  {kind : κ} {found : Token κ} {tokens : List (Token κ)} {stray : Option Stray}

/-! ### The first rule -/

section Rules

variable {pattern : Pattern} {m : Match}

/-- A barren rule is passed over. -/
theorem firstMatch?_cons_of_barren {rule : κ × Pattern} (barren : Barren text offset rule)
    (rules : List (κ × Pattern)) :
    firstMatch? (rule :: rules) text offset = firstMatch? rules text offset := by
  obtain ⟨kind, pattern⟩ := rule
  unfold firstMatch?
  rw [List.findSome?_cons]
  cases matched : pattern.matchAt? text offset with
  | none => simp [matched]
  | some m =>
      obtain ⟨_, rfl, _, _⟩ := Pattern.extent_of_matchAt? matched
      have empty : ¬ m.start < m.stop := by simpa [Match.isEmpty] using barren m matched
      simp [matched, empty]

/-- A rule with a match that isn't empty goes before all that follow. -/
theorem firstMatch?_cons_of_match (matched : pattern.matchAt? text offset = some m)
    (nonempty : m.isEmpty = false) (rules : List (κ × Pattern)) :
    firstMatch? ((kind, pattern) :: rules) text offset = some (kind, m.stop) := by
  unfold firstMatch?
  rw [List.findSome?_cons]
  simp [matched, Pattern.lt_of_matchAt? matched nonempty]

/-- Where all rules are barren there is no match. -/
theorem firstMatch?_of_barren (barren : ∀ rule ∈ rules, Barren text offset rule) :
    firstMatch? rules text offset = none := by
  induction rules with
  | nil => rfl
  | cons rule rules ih =>
      rw [List.forall_mem_cons] at barren
      rw [firstMatch?_cons_of_barren barren.1, ih barren.2]

/-- The rule that wins is the one that is found. -/
theorem Wins.firstMatch?_eq (wins : Wins rules text offset kind m) :
    firstMatch? rules text offset = some (kind, m.stop) := by
  obtain ⟨before, pattern, after, rfl, barren, matched, nonempty⟩ := wins
  induction before with
  | nil => exact firstMatch?_cons_of_match matched nonempty after
  | cons rule before ih =>
      rw [List.forall_mem_cons] at barren
      rw [List.cons_append, firstMatch?_cons_of_barren barren.1, ih barren.2]

/-- A rule has a match that isn't empty, or it is barren. -/
theorem matches_or_barren (text : Text) (offset : Nat) (rule : κ × Pattern) :
    (∃ m, rule.2.matchAt? text offset = some m ∧ m.isEmpty = false) ∨
      Barren text offset rule := by
  unfold Barren
  cases matched : rule.2.matchAt? text offset with
  | none => exact .inr nofun
  | some m =>
      cases empty : m.isEmpty with
      | false => exact .inl ⟨m, rfl, empty⟩
      | true =>
          refine .inr ?_
          rintro _ ⟨⟩
          exact empty

/-- Either one of the rules wins at an offset or all of them are barren there. -/
theorem wins_or_barren (rules : List (κ × Pattern)) (text : Text) (offset : Nat) :
    (∃ kind m, Wins rules text offset kind m) ∨ ∀ rule ∈ rules, Barren text offset rule := by
  induction rules with
  | nil => exact .inr nofun
  | cons rule rules ih =>
      rcases matches_or_barren text offset rule with ⟨m, matched, nonempty⟩ | barren
      · exact .inl ⟨rule.1, m, [], rule.2, rules, rfl, nofun, matched, nonempty⟩
      · rcases ih with ⟨kind, m, before, pattern, after, rfl, barren', wins⟩ | barren'
        · exact .inl ⟨kind, m, rule :: before, pattern, after, rfl,
            List.forall_mem_cons.mpr ⟨barren, barren'⟩, wins⟩
        · exact .inr (List.forall_mem_cons.mpr ⟨barren, barren'⟩)

/-- What wins has a text to show. -/
theorem Wins.exists_slice? (wins : Wins rules text offset kind m) :
    ∃ value, text.slice? offset m.stop = some value ∧ value ≠ [] := by
  obtain ⟨_, _, _, _, _, matched, nonempty⟩ := wins
  exact Pattern.exists_slice?_of_matchAt? matched nonempty

/-- Where a rule wins the text goes on. -/
theorem Wins.exists_rest? (wins : Wins rules text offset kind m) :
    ∃ c rest, text.rest? offset = some (c :: rest) := by
  obtain ⟨value, between, some⟩ := wins.exists_slice?
  obtain ⟨front, back, rfl, rfl, _⟩ := Text.slice?_eq_some_iff.mp between
  cases value with
  | nil => exact absurd rfl some
  | cons c value => exact ⟨c, value ++ back, Text.rest?_eq_some_iff.mpr ⟨front, rfl, rfl⟩⟩

end Rules

/-! ### What comes next -/

/-- A lexer looks for a token where it has passed over all that it passes over. -/
theorem start?_eq_some_iff (place : text.IsPlace offset) :
    lexer.start? text offset = some start ↔ lexer.Skips text offset start := by
  unfold start?
  cases skips : lexer.skipWhitespace with
  | true =>
      rw [if_pos rfl, Text.skipWhitespace?_eq_some_iff]
      constructor
      · rintro ⟨⟨gap, between, whitespace⟩, stops⟩
        refine ⟨⟨gap, between, fun c mem => ⟨skips, whitespace c mem⟩⟩, ?_⟩
        intro c rest goesOn passes
        exact absurd passes.2 (by simp [stops c rest goesOn])
      · rintro ⟨⟨gap, between, passed⟩, stops⟩
        refine ⟨⟨gap, between, fun c mem => (passed c mem).2⟩, ?_⟩
        intro c rest goesOn
        cases whitespace : isWhitespace c with
        | false => rfl
        | true => exact absurd ⟨skips, whitespace⟩ (stops c rest goesOn)
  | false =>
      have passesNone : ∀ c, ¬ lexer.Passes c := fun c passes => by simp [Passes, skips] at passes
      simp only [Bool.false_eq_true, if_false, Option.some.injEq]
      constructor
      · rintro rfl
        exact ⟨.refl place, fun c _ _ => passesNone c⟩
      · rintro ⟨⟨gap, between, passed⟩, _⟩
        obtain rfl : gap = [] := List.eq_nil_iff_forall_not_mem.mpr fun c mem =>
          passesNone c (passed c mem)
        exact Text.add_size_of_slice? between

/-- From every place there is somewhere to go on from. -/
theorem exists_skips (lexer : Lexer κ) (place : text.IsPlace offset) :
    ∃ start, lexer.Skips text offset start := by
  have starts : ∃ start, lexer.start? text offset = some start := by
    unfold start?
    split
    · obtain ⟨start, _, skipped, _⟩ := Text.exists_skipWhitespace? place
      exact ⟨start, skipped⟩
    · exact ⟨offset, rfl⟩
  obtain ⟨start, found⟩ := starts
  exact ⟨start, (start?_eq_some_iff place).mp found⟩

/-- A lexer goes on from where it has to. -/
theorem Skips.start?_eq (skips : lexer.Skips text offset start) :
    lexer.start? text offset = some start := by
  obtain ⟨_, between, _⟩ := skips.gap
  exact (start?_eq_some_iff (Text.isPlace_start_of_slice? between)).mpr skips

/-- What is passed over ends at a place. -/
theorem Skips.isPlace (skips : lexer.Skips text offset start) : text.IsPlace start := by
  obtain ⟨_, between, _⟩ := skips.gap
  exact Text.isPlace_stop_of_slice? between

/-- At the end of the text there is nothing to pass over. -/
theorem skips_size (lexer : Lexer κ) (text : Text) : lexer.Skips text text.size text.size where
  gap := .refl (Text.isPlace_stop_of_slice? text.slice?_zero_size)
  stops := by
    intro c rest goesOn
    have sized := Text.size_of_rest?_eq_some goesOn
    have := c.utf8Size_pos
    rw [Text.size_cons] at sized
    omega

/-- At every place the next step is one that the lexer has to find. -/
theorem finds_next (place : text.IsPlace offset) :
    lexer.Finds text offset (lexer.next text offset) := by
  obtain ⟨start, skips⟩ := lexer.exists_skips place
  obtain ⟨rest, here⟩ := Text.isPlace_iff.mp skips.isPlace
  unfold next
  simp only [skips.start?_eq, here]
  cases rest with
  | nil =>
      have sized := Text.size_of_rest?_eq_some here
      rw [Text.size_nil, Nat.add_zero] at sized
      rw [sized] at skips
      exact .done skips
  | cons c rest =>
      rcases wins_or_barren lexer.rules text start with ⟨kind, m, wins⟩ | barren
      · obtain ⟨value, between, _⟩ := wins.exists_slice?
        simp only [wins.firstMatch?_eq, between]
        exact .token skips wins between
      · simp only [firstMatch?_of_barren barren]
        exact .stray skips here barren

/-- The step that a lexer has to find is the next one. -/
theorem Finds.next_eq {step : Step κ} (finds : lexer.Finds text offset step) :
    lexer.next text offset = step := by
  unfold next
  cases finds with
  | done skips =>
      have atEnd : text.rest? text.size = some [] :=
        Text.rest?_eq_some_iff.mpr ⟨text, by simp, rfl⟩
      simp only [skips.start?_eq, atEnd]
  | stray skips here barren => simp only [skips.start?_eq, here, firstMatch?_of_barren barren]
  | token skips wins between =>
      obtain ⟨c, rest, here⟩ := wins.exists_rest?
      simp only [skips.start?_eq, here, wins.firstMatch?_eq, between]
      rfl

/-- From every place a lexer finds what it has to. -/
theorem next_eq_iff {step : Step κ} (place : text.IsPlace offset) :
    lexer.next text offset = step ↔ lexer.Finds text offset step := by
  constructor
  · rintro rfl
    exact finds_next place
  · exact Finds.next_eq

/-! ### All that comes -/

/-- A token ends at a place. -/
theorem Finds.isPlace (finds : lexer.Finds text offset (.token found stop)) :
    text.IsPlace stop := by
  cases finds with
  | token _ _ between => exact Text.isPlace_stop_of_slice? between

/-- The tokens of a text, and what ends them, split it. -/
theorem splits_tokensFrom (place : text.IsPlace offset) :
    lexer.Splits text offset (lexer.tokensFrom text offset).1
      (lexer.tokensFrom text offset).2 := by
  fun_induction tokensFrom lexer text offset with
  | case1 offset step => exact .done ((next_eq_iff place).mp step)
  | case2 offset found step => exact .stray ((next_eq_iff place).mp step)
  | case3 offset found stop step tokens stray more ih =>
      have finds := (next_eq_iff place).mp step
      rw [more] at ih
      exact .token finds (ih finds.isPlace)

/-- What comes next decides what all that comes is. -/
theorem tokensFrom_eq (lexer : Lexer κ) (text : Text) (offset : Nat) :
    lexer.tokensFrom text offset =
      match lexer.next text offset with
      | .done => ([], none)
      | .stray found => ([], some found)
      | .token found stop =>
          (found :: (lexer.tokensFrom text stop).1, (lexer.tokensFrom text stop).2) := by
  rw [tokensFrom]
  split <;> simp_all only

/-- No other tokens split a text. -/
theorem Splits.tokensFrom_eq (splits : lexer.Splits text offset tokens stray) :
    lexer.tokensFrom text offset = (tokens, stray) := by
  induction splits with
  | done finds => rw [Lexer.tokensFrom_eq, finds.next_eq]
  | stray finds => rw [Lexer.tokensFrom_eq, finds.next_eq]
  | token finds _ ih =>
      rw [Lexer.tokensFrom_eq, finds.next_eq]
      simp only [ih]

/-- From every place a lexer splits a text in one way, the one that it gives. -/
theorem tokensFrom_eq_iff (place : text.IsPlace offset) :
    lexer.tokensFrom text offset = (tokens, stray) ↔ lexer.Splits text offset tokens stray := by
  constructor
  · intro same
    have splits := lexer.splits_tokensFrom place
    rw [same] at splits
    exact splits
  · exact Splits.tokensFrom_eq

/-- Where the tokens end: at the stray character or else at the end of the text. -/
def ends (text : Text) (stray : Option Stray) : Nat :=
  stray.elim text.size Located.offset

/-- Between tokens there is only what the lexer passes over. -/
theorem Splits.laid (splits : lexer.Splits text offset tokens stray) :
    text.Laid lexer.Passes offset (tokens.map Token.leaf) (ends text stray) := by
  induction splits with
  | done finds =>
      cases finds with
      | done skips => exact .gap skips.gap
  | stray finds =>
      cases finds with
      | stray skips _ _ => exact .gap skips.gap
  | token finds _ ih =>
      cases finds with
      | token skips wins between =>
          obtain ⟨_, between', some⟩ := wins.exists_slice?
          cases between.symm.trans between'
          exact .leaf skips.gap between some ih

/-- Every token is a piece of the text that isn't empty. -/
theorem Splits.slice?_of_mem (splits : lexer.Splits text offset tokens stray) :
    ∀ token ∈ tokens, token.value ≠ "" ∧
      text.slice? token.index (token.index + token.value.utf8ByteSize) =
        some token.value.toList := by
  intro token mem
  obtain ⟨offset, value, starts, isValue, nonempty, _, between⟩ :=
    splits.laid.slice?_of_mem token.leaf (List.mem_map_of_mem mem)
  cases starts
  cases isValue
  exact ⟨nonempty, between⟩

/-- No token starts before an earlier one has ended. -/
theorem Splits.pairwise (splits : lexer.Splits text offset tokens stray) :
    tokens.Pairwise fun earlier later =>
      earlier.index + earlier.value.utf8ByteSize ≤ later.index := by
  refine (List.pairwise_map.mp splits.laid.pairwise).imp ?_
  rintro earlier later ⟨stop, offset, ends, starts, le⟩
  cases ends
  cases starts
  exact le

/-! ### One at a time -/

/-- At the end nothing is read, and the reader stays there. -/
theorem advance_of_done (finds : lexer.Finds text offset .done) :
    lexer.advance text ⟨offset, false⟩ = (none, ⟨text.size, false⟩) := by
  cases finds with
  | done skips =>
      simp only [advance, (Finds.done skips).next_eq, skips.start?_eq]
      rfl

/-- A stray character is read as an error, after which nothing more is read. -/
theorem advance_of_stray {found : Stray} (finds : lexer.Finds text offset (.stray found)) :
    lexer.advance text ⟨offset, false⟩ = (some (.error found.error), ⟨found.offset, true⟩) := by
  simp only [advance, finds.next_eq]
  rfl

/-- A token is read, and the reader goes on from where it stops. -/
theorem advance_of_token (finds : lexer.Finds text offset (.token found stop)) :
    lexer.advance text ⟨offset, false⟩ = (some (.ok found), ⟨stop, false⟩) := by
  simp only [advance, finds.next_eq]
  rfl

/-- Nothing is read after an error. -/
theorem read?_of_failed (lexer : Lexer κ) (text : Text) (n offset : Nat) :
    lexer.read? text n ⟨offset, true⟩ = none := by
  induction n with
  | zero => rfl
  | succ n ih => exact ih

/-- Nothing is read at the end of the text. -/
theorem read?_size (lexer : Lexer κ) (text : Text) (n : Nat) :
    lexer.read? text n ⟨text.size, false⟩ = none := by
  have finds : lexer.Finds text text.size .done := .done (lexer.skips_size text)
  induction n with
  | zero => rw [read?, advance_of_done finds]
  | succ n ih => rw [read?, advance_of_done finds, ih]

/-- What there is to be read: the tokens, then the error for what ended them early. -/
def readings (tokens : List (Token κ)) (stray : Option Stray) :
    List (Except Error (Token κ)) :=
  tokens.map .ok ++ (stray.map fun found => .error found.error).toList

/-- To read one after another gives the tokens and then the error, if there is one. -/
theorem Splits.read?_eq (splits : lexer.Splits text offset tokens stray) (n : Nat) :
    lexer.read? text n ⟨offset, false⟩ = (readings tokens stray)[n]? := by
  induction splits generalizing n with
  | done finds =>
      cases n with
      | zero => rw [read?, advance_of_done finds]; rfl
      | succ n => rw [read?, advance_of_done finds, read?_size]; rfl
  | stray finds =>
      cases n with
      | zero => rw [read?, advance_of_stray finds]; rfl
      | succ n => rw [read?, advance_of_stray finds, read?_of_failed]; rfl
  | token finds _ ih =>
      cases n with
      | zero => rw [read?, advance_of_token finds]; rfl
      | succ n => rw [read?, advance_of_token finds, ih]; rfl

/-! ### Whole texts -/

/-- Tokens are returned if they are those of the text and nothing is stray in it. -/
theorem tokenize_eq_ok_iff (given : lexer.tokens text = (tokens, stray)) {all : List (Token κ)} :
    lexer.tokenize text = .ok all ↔ stray = none ∧ all = tokens := by
  unfold tokenize
  rw [given]
  cases stray with
  | none => simp [eq_comm]
  | some found => simp

/-- An error is returned if a character is stray, and it tells which and where. -/
theorem tokenize_eq_error_iff (given : lexer.tokens text = (tokens, stray)) {error : Error} :
    lexer.tokenize text = .error error ↔
      ∃ found, stray = some found ∧
        error = .unexpectedCharacter found.content found.offset := by
  unfold tokenize
  rw [given]
  cases stray with
  | none => simp
  | some found => simp [Stray.error, eq_comm]

/-- A lexer splits every text, and in one way only. One at a time it gives the tokens,
then the error for a stray character if there is one, and nothing more. The tokens are
pieces of the text that aren't empty, none of them starts before an earlier one has
ended, and around them is only what the lexer passes over. They are the tokens of the
text unless a character is stray; then that is the error. -/
theorem tokens_split (lexer : Lexer κ) (text : Text) :
    ∃ tokens stray, lexer.tokens text = (tokens, stray) ∧
      (∀ tokens' stray', lexer.Splits text 0 tokens' stray' ↔
        tokens' = tokens ∧ stray' = stray) ∧
      (∀ n, lexer.read? text n {} = (readings tokens stray)[n]?) ∧
      (∀ token ∈ tokens, token.value ≠ "" ∧
        text.slice? token.index (token.index + token.value.utf8ByteSize) =
          some token.value.toList) ∧
      (tokens.Pairwise fun earlier later =>
        earlier.index + earlier.value.utf8ByteSize ≤ later.index) ∧
      text.Laid lexer.Passes 0 (tokens.map Token.leaf) (ends text stray) ∧
      (∀ all, lexer.tokenize text = .ok all ↔ stray = none ∧ all = tokens) ∧
      ∀ error, lexer.tokenize text = .error error ↔
        ∃ found, stray = some found ∧
          error = .unexpectedCharacter found.content found.offset := by
  cases given : lexer.tokens text with
  | mk tokens stray =>
    have fromStart : lexer.tokensFrom text 0 = (tokens, stray) := given
    have splits : lexer.Splits text 0 tokens stray :=
      (tokensFrom_eq_iff text.isPlace_zero).mp fromStart
    refine ⟨tokens, stray, rfl, ?_, splits.read?_eq, splits.slice?_of_mem, splits.pairwise,
      splits.laid, fun _ => tokenize_eq_ok_iff given, fun _ => tokenize_eq_error_iff given⟩
    intro tokens' stray'
    rw [← tokensFrom_eq_iff text.isPlace_zero, fromStart, Prod.mk.injEq]
    exact and_congr eq_comm eq_comm

/-- Words, one of them a keyword, after something that may be empty. -/
def keywords : Lexer String where
  rules := [("nothing", "9*"), ("let", "let"), ("word", "[a-z]+")].filterMap fun (kind, source) =>
    (Pattern.compile source).toOption.map fun pattern => (kind, pattern)

/-- The rule for the keyword wins although the word is longer, until a character starts
no token. -/
theorem keywords_split :
    keywords.Splits "let \tletter é 7".toList 0
        [⟨"let", "let", 0⟩, ⟨"let", "let", 5⟩, ⟨"word", "ter", 8⟩] (some ⟨'é', 12⟩) ∧
      keywords.read? "let \tletter é 7".toList 2 {} = some (.ok ⟨"word", "ter", 8⟩) ∧
      keywords.read? "let \tletter é 7".toList 3 {} = some (.error (.unexpectedCharacter 'é' 12)) ∧
      keywords.read? "let \tletter é 7".toList 4 {} = none ∧
      Text.slice? "let \tletter é 7".toList 8 11 = some "ter".toList ∧
      keywords.tokenize "let \tletter é 7".toList = .error (.unexpectedCharacter 'é' 12) := by
  obtain ⟨tokens, stray, same, splits, read, pieces, _, _, _, fails⟩ :=
    keywords.tokens_split "let \tletter é 7".toList
  have computed : keywords.tokens "let \tletter é 7".toList =
      ([⟨"let", "let", 0⟩, ⟨"let", "let", 5⟩, ⟨"word", "ter", 8⟩], some ⟨'é', 12⟩) := by
    decide +kernel
  obtain ⟨rfl, rfl⟩ := Prod.mk.inj (same.symm.trans computed)
  obtain ⟨_, piece⟩ := pieces ⟨"word", "ter", 8⟩ (by simp)
  exact ⟨(splits _ _).mpr ⟨rfl, rfl⟩, read 2, read 3, read 4, piece, (fails _).mpr ⟨_, rfl, rfl⟩⟩

end Lexer

end TextGrammar
