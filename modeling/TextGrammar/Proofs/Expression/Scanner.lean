import TextGrammar.Proofs.Expression.Digits
import TextGrammar.Proofs.Lexer.Partition
import TextGrammar.Proofs.Pattern.Denotation
import TextGrammar.Proofs.Pattern.Stops

/-!
A scanner for expressions that is written by hand.

The lexer of expressions tries the pattern of one symbol after another. The scanner
(`Expression.scan`) looks at one character, which decides what symbol it starts, and
takes the characters that the symbol goes on with, as many as there are. The two give
the same tokens for every text and are stopped by the same character
(`Expression.tokens_eq_scan`).
-/

namespace TextGrammar

/-! ### The scanner -/

namespace Symbol

/-- The symbol that is written as a sign. -/
def ofSign? : Char → Option Symbol
  | '|' => some .pipe
  | '+' => some .plus
  | '?' => some .question
  | '*' => some .star
  | '(' => some .leftParen
  | ')' => some .rightParen
  | '{' => some .leftBrace
  | '}' => some .rightBrace
  | '[' => some .leftBracket
  | ']' => some .rightBracket
  | ',' => some .comma
  | '^' => some .caret
  | _ => none

/-- The symbol that a character starts: a letter or an underscore an identifier, a digit
a number, and a sign the symbol that it is. -/
def startedBy? (c : Char) : Option Symbol :=
  if c.isAlpha || c = '_' then some .identifier
  else if c.isDigit then some .number
  else ofSign? c

/-- Whether a symbol that has been started goes on with a character. -/
def goesOnWith : Symbol → Char → Bool
  | .identifier, c => c.isAlpha || c.isDigit || c = '_'
  | .number, c => c.isDigit
  | _, _ => false

end Symbol

/-- The tokens of a text that lies at an offset, and the character that ends them early.
Whitespace is skipped; any other character starts a symbol, which takes as many of the
characters after it as it can go on with, or else it is stray. -/
def Expression.scan (offset : Nat) : Text → List (Token Symbol) × Option Stray
  | [] => ([], none)
  | c :: rest =>
      if isWhitespace c then scan (offset + c.utf8Size) rest
      else
        match Symbol.startedBy? c with
        | none => ([], some ⟨c, offset⟩)
        | some symbol =>
            let value := c :: rest.takeWhile symbol.goesOnWith
            let (tokens, stray) := scan (offset + Text.size value) (rest.dropWhile symbol.goesOnWith)
            (⟨symbol, String.ofList value, offset⟩ :: tokens, stray)
termination_by text => text.length
decreasing_by
  · exact Nat.lt_succ_self _
  · exact Nat.lt_succ_of_le (List.dropWhile_sublist _).length_le

/-! ### Runs of characters -/

section Runs

variable {text rest : Text} {offset : Nat}

/-- What is left behind a front part of the text is left at its end. -/
theorem Text.rest?_of_rest?_append (front : Text) {back : Text}
    (found : text.rest? offset = some (front ++ back)) :
    text.rest? (offset + front.size) = some back := by
  obtain ⟨before, rfl, rfl⟩ := Text.rest?_eq_some_iff.mp found
  exact Text.rest?_eq_some_iff.mpr ⟨before ++ front, by simp, by simp⟩

/-- Behind a character that the text goes on with, the rest of the text is left. -/
theorem Text.rest?_of_rest?_cons {c : Char} (found : text.rest? offset = some (c :: rest)) :
    text.rest? (offset + c.utf8Size) = some rest :=
  rest?_of_rest?_append [c] found

theorem Text.isPlace_of_rest? (found : text.rest? offset = some rest) : text.IsPlace offset :=
  Text.isPlace_iff.mpr ⟨rest, found⟩

/-- A class matches the character that a text goes on with, if it accepts that. -/
theorem Kind.stop?_single (chars : CharClass) {c : Char}
    (found : text.rest? offset = some (c :: rest)) :
    (Kind.single chars).stop? text offset =
      if chars.accepts c then some (offset + c.utf8Size) else none := by
  rw [Kind.stop?, Kind.walk, Text.matchChar]
  simp only [found]
  split <;> rfl

/-- The characters that one of the items of a set accepts. -/
def Node.accept (items : List Node) (c : Char) : Bool :=
  items.any fun item => item.kind.accepts c

variable {items : List Node}

/-- A set of items matches the character that a text goes on with, if an item accepts
that. -/
theorem Kind.stop?_set (allItems : ∀ item ∈ items, item.IsItem) {c : Char}
    (found : text.rest? offset = some (c :: rest)) :
    (Kind.set items false).stop? text offset =
      if Node.accept items c then some (offset + c.utf8Size) else none := by
  rw [Kind.stop?, Kind.outcome_walk_set (Text.isPlace_of_rest? found) {} () allItems,
    Text.matchChar, Node.accept]
  simp only [found, Bool.bne_false]
  split <;> rfl

/-- At the end of the text a set matches nothing. -/
theorem Kind.stop?_set_of_end (allItems : ∀ item ∈ items, item.IsItem)
    (found : text.rest? offset = some []) : (Kind.set items false).stop? text offset = none := by
  rw [Kind.stop?, Kind.outcome_walk_set (Text.isPlace_of_rest? found) {} () allItems,
    Text.matchChar, found]
  rfl

/-- A set that is repeated as often as possible takes all characters up to the first one
that no item accepts. -/
theorem Node.stop?_zeroOrMore (allItems : ∀ item ∈ items, item.IsItem)
    (found : text.rest? offset = some rest) :
    (⟨.set items false, some .zeroOrMore⟩ : Node).stop? text offset =
      some (offset + Text.size (rest.takeWhile (Node.accept items))) := by
  have ordered : (Option.getD (some .zeroOrMore) Quantifier.once).Ordered := nofun
  induction rest generalizing offset with
  | nil =>
      rw [Node.stop?_rest (Text.isPlace_of_rest? found) ordered rfl,
        Kind.stop?_set_of_end allItems found]
      rfl
  | cons c rest ih =>
      rw [Node.stop?_rest (Text.isPlace_of_rest? found) ordered rfl, Kind.stop?_set allItems found]
      cases accepted : Node.accept items c with
      | false => simp [accepted, Quantifier.zeroOrMore]
      | true =>
          have later := ih (Text.rest?_of_rest?_cons found)
          simp only [if_true, List.takeWhile_cons, accepted, Text.size_cons, ← Nat.add_assoc]
          exact later

/-- After a character a set that is repeated as often as possible takes all those up to
the first one that no item accepts. -/
theorem Node.stop?_zeroOrMore_of_cons (allItems : ∀ item ∈ items, item.IsItem) {c : Char}
    (found : text.rest? offset = some (c :: rest)) :
    (⟨.set items false, some .zeroOrMore⟩ : Node).stop? text (offset + c.utf8Size) =
      some (offset + Text.size (c :: rest.takeWhile (Node.accept items))) := by
  rw [Node.stop?_zeroOrMore allItems (Text.rest?_of_rest?_cons found), Text.size_cons,
    Nat.add_assoc]

/-- A set that is repeated at least once takes a character that an item accepts, and goes
on up to the first one that no item accepts. -/
theorem Node.stop?_onceOrMore (allItems : ∀ item ∈ items, item.IsItem) {c : Char}
    (found : text.rest? offset = some (c :: rest)) :
    (⟨.set items false, some .onceOrMore⟩ : Node).stop? text offset =
      if Node.accept items c then
        some (offset + Text.size (c :: rest.takeWhile (Node.accept items)))
      else none := by
  have ordered : (Option.getD (some .onceOrMore) Quantifier.once).Ordered := nofun
  rw [Node.stop?_rest (Text.isPlace_of_rest? found) ordered rfl, Kind.stop?_set allItems found]
  cases Node.accept items c with
  | true => exact Node.stop?_zeroOrMore_of_cons allItems found
  | false => rfl

end Runs

/-! ### The patterns of the symbols -/

namespace Symbol

/-- The sign that a symbol is. -/
def sign? : Symbol → Option Char
  | identifier | number => none
  | pipe => some '|'
  | plus => some '+'
  | question => some '?'
  | star => some '*'
  | leftParen => some '('
  | rightParen => some ')'
  | leftBrace => some '{'
  | rightBrace => some '}'
  | leftBracket => some '['
  | rightBracket => some ']'
  | comma => some ','
  | caret => some '^'

theorem mem_all (symbol : Symbol) : symbol ∈ all := by
  cases symbol <;> decide

variable {symbol : Symbol} {c : Char}

/-- A sign belongs to at most one symbol, and is found by its character. -/
theorem ofSign?_eq_some_iff : ofSign? c = some symbol ↔ symbol.sign? = some c := by
  constructor
  · intro found
    unfold ofSign? at found
    split at found <;> cases found <;> rfl
  · intro signed
    cases symbol <;> cases signed <;> rfl

/-- A sign is neither a letter nor an underscore nor a digit. -/
theorem startedBy?_of_sign? (signed : symbol.sign? = some c) : startedBy? c = some symbol := by
  cases symbol <;> cases signed <;> rfl

/-- Letters and the underscore start identifiers, and nothing else does. -/
theorem startedBy?_eq_identifier_iff :
    startedBy? c = some identifier ↔ (c.isAlpha || c = '_') = true := by
  unfold startedBy?
  split
  · simp [*]
  · split
    · simp [*]
    · simp [*, ofSign?_eq_some_iff, sign?]

theorem accepts_lower (c : Char) : (CharClass.range 'a' 'z').accepts c = c.isLower := rfl

theorem accepts_upper (c : Char) : (CharClass.range 'A' 'Z').accepts c = c.isUpper :=
  (Bool.decide_and _ _).symm

theorem accepts_digit (c : Char) : (CharClass.range '0' '9').accepts c = c.isDigit := rfl

theorem accepts_underscore (c : Char) : (CharClass.literal '_').accepts c = decide (c = '_') := rfl

theorem isAlpha_eq (c : Char) : c.isAlpha = (c.isLower || c.isUpper) :=
  Bool.or_comm _ _

/-- What starts a number doesn't start an identifier. -/
theorem not_letter_of_isDigit (digit : c.isDigit = true) : (c.isAlpha || c = '_') = false := by
  have : c ≠ '_' := by
    rintro rfl
    simp at digit
  rw [isAlpha_eq, ← accepts_lower, ← accepts_upper]
  rw [← accepts_digit] at digit
  simp only [CharClass.accepts, Char.le_def, Bool.and_eq_true, decide_eq_true_eq,
    Bool.or_eq_false_iff, decide_eq_false_iff_not] at *
  grind

/-- Digits start numbers, and nothing else does. -/
theorem startedBy?_eq_number_iff : startedBy? c = some number ↔ c.isDigit = true := by
  unfold startedBy?
  split
  · rename_i letter
    have : c.isDigit ≠ true := fun digit => by simp [not_letter_of_isDigit digit] at letter
    simp [this]
  · split
    · simp [*]
    · simp [*, ofSign?_eq_some_iff, sign?]

/-- A character starts the symbol of a sign only if it is the sign. -/
theorem startedBy?_eq_some_iff_of_sign? {sign : Char} (signed : symbol.sign? = some sign) :
    startedBy? c = some symbol ↔ c = sign := by
  constructor
  · intro starts
    unfold startedBy? at starts
    split at starts
    · cases starts
      cases signed
    · split at starts
      · cases starts
        cases signed
      · exact Option.some.inj ((ofSign?_eq_some_iff.mp starts).symm.trans signed)
  · rintro rfl
    exact startedBy?_of_sign? signed

/-- The classes of what an identifier starts with. -/
def letters : List CharClass :=
  [.range 'a' 'z', .range 'A' 'Z', .literal '_']

/-- The classes of what an identifier goes on with. -/
def wordCharacters : List CharClass :=
  [.range 'a' 'z', .range 'A' 'Z', .range '0' '9', .literal '_']

/-- The pattern that is written for a symbol. -/
def compiled (symbol : Symbol) : Pattern where
  source := symbol.pattern
  root :=
    match symbol with
    | identifier =>
        .only [.one (.set (letters.map fun chars => .one (.single chars)) false),
          ⟨.set (wordCharacters.map fun chars => .one (.single chars)) false, some .zeroOrMore⟩]
    | number => numberPattern.root
    | symbol => .only (symbol.sign?.toList.map fun c => .one (.literal c))
  groups := 0

end Symbol

namespace Pattern

/-- A source compiles to what its marks nest to, if they can be read. -/
theorem compile_of_readMarks {source : String} {marks : List (Mark Kind (Option Quantifier))}
    (read : readMarks [] 0 (glyphs 0 source.toList) = .ok marks) :
    compile source = .ok ⟨source, sequenceOfMarks marks, Mark.groups marks⟩ := by
  rw [compile, Pattern.read, read]
  rfl

/-- A source of one glyph denotes what the glyph matches. -/
theorem compile_of_glyph {source : String} {glyph : Located Glyph} {kind : Kind}
    (single : glyphs 0 source.toList = [glyph])
    (unstructured : glyph.content ∉ [.plain '(', .plain ')', .plain '|'])
    (plain : glyph.content ≠ .plain '[') (found : glyph.content.kind? = some kind) :
    compile source = .ok ⟨source, .only [.one kind], 0⟩ := by
  have one : readAtom glyph [] = .ok (kind, []) := by
    rw [readAtom, if_neg plain, found]
  have read : readMarks [] 0 [glyph] = .ok [.atom kind none] :=
    readMarks_of_reads (.atom ⟨unstructured, one⟩ rfl) (reader.nil_iff.mpr ⟨rfl, rfl⟩)
  rw [← single] at read
  exact compile_of_readMarks read

end Pattern

namespace Symbol

theorem isItem_of_mem_map {classes : List CharClass} (allItems : ∀ chars ∈ classes, chars.IsItem) :
    ∀ item ∈ classes.map fun chars => Node.one (.single chars), item.IsItem := by
  intro item mem
  obtain ⟨chars, inside, rfl⟩ := List.mem_map.mp mem
  exact ⟨chars, allItems chars inside, rfl⟩

theorem isItem_letters : ∀ chars ∈ letters, chars.IsItem := by
  simp [letters, CharClass.IsItem]

theorem isItem_wordCharacters : ∀ chars ∈ wordCharacters, chars.IsItem := by
  simp [wordCharacters, CharClass.IsItem]

/-- The pattern of identifiers compiles to the tree that is given for it. -/
theorem compile_identifier : Pattern.compile identifier.pattern = .ok identifier.compiled := by
  have glyphs : Pattern.glyphs 0 identifier.pattern.toList =
      ⟨.plain '[', 0⟩ :: (Pattern.place 1 (Pattern.printSet letters false) ++
        ⟨.plain '[', 9⟩ :: (Pattern.place 10 (Pattern.printSet wordCharacters false) ++
          [⟨.plain '*', 21⟩])) := by
    decide +kernel
  have first := Pattern.readAtom_printSet isItem_letters false 0 1
    (⟨.plain '[', 9⟩ :: (Pattern.place 10 (Pattern.printSet wordCharacters false) ++
      [⟨.plain '*', 21⟩]))
  have second := Pattern.readAtom_printSet isItem_wordCharacters false 9 10 [⟨.plain '*', 21⟩]
  have read : Pattern.readMarks [] 0 (Pattern.glyphs 0 identifier.pattern.toList) =
      .ok [.atom (.set (letters.map fun chars => .one (.single chars)) false) none,
        .atom (.set (wordCharacters.map fun chars => .one (.single chars)) false)
          (some .zeroOrMore)] := by
    rw [glyphs]
    exact Pattern.readMarks_of_reads (.atom ⟨by decide, first⟩ rfl)
      (Pattern.readMarks_of_reads (.atom ⟨by decide, second⟩ rfl)
        (Pattern.reader.nil_iff.mpr ⟨rfl, rfl⟩))
  exact Pattern.compile_of_readMarks read

/-- The pattern of every symbol compiles to the tree that is given for it. -/
theorem compile_pattern (symbol : Symbol) :
    Pattern.compile symbol.pattern = .ok symbol.compiled := by
  cases symbol with
  | identifier => exact compile_identifier
  | number => exact compile_number
  | _ => exact Pattern.compile_of_glyph rfl (by decide) (by decide) rfl

/-! ### What is matched for a symbol -/

section Match

variable {text rest : Text} {offset : Nat}

/-- A set of single classes takes a character that one of them takes. -/
theorem accept_single (classes : List CharClass) (c : Char) :
    Node.accept (classes.map fun chars => .one (.single chars)) c =
      classes.any fun chars => chars.accepts c := by
  rw [Node.accept, List.any_map]
  rfl

/-- The set that identifiers start with takes letters and the underscore. -/
theorem accept_letters (c : Char) :
    Node.accept (letters.map fun chars => .one (.single chars)) c = (c.isAlpha || c = '_') := by
  rw [accept_single]
  simp only [letters, List.any_cons, List.any_nil, accepts_lower, accepts_upper,
    accepts_underscore, isAlpha_eq, Bool.or_false, Bool.or_assoc]

/-- The set that identifiers go on with takes what the scanner goes on with. -/
theorem accept_wordCharacters :
    Node.accept (wordCharacters.map fun chars => .one (.single chars)) = identifier.goesOnWith := by
  funext c
  rw [accept_single]
  simp only [wordCharacters, goesOnWith, List.any_cons, List.any_nil, accepts_lower,
    accepts_upper, accepts_digit, accepts_underscore, isAlpha_eq, Bool.or_false, Bool.or_assoc]

/-- The set of numbers takes what the scanner goes on with. -/
theorem accept_digit : Node.accept [.one (.single (.range '0' '9'))] = number.goesOnWith := by
  funext c
  exact (Bool.or_false _).trans (accepts_digit c)

/-- Wherever there is a character, the pattern of a symbol matches only if the character
starts the symbol, and then it takes all that the symbol can go on with. -/
theorem stop?_compiled (symbol : Symbol) {c : Char}
    (found : text.rest? offset = some (c :: rest)) :
    symbol.compiled.root.stop? text offset =
      if startedBy? c = some symbol then
        some (offset + Text.size (c :: rest.takeWhile symbol.goesOnWith))
      else none := by
  have place := Text.isPlace_of_rest? found
  cases signed : symbol.sign? with
  | none =>
      cases symbol with
      | identifier =>
          simp only [startedBy?_eq_identifier_iff]
          rw [compiled, Sequence.stop?_only, Node.stopAll?_cons, Node.stop?_one _ place,
            Kind.stop?_set (isItem_of_mem_map isItem_letters) found, accept_letters]
          cases (c.isAlpha || c = '_') with
          | true =>
              rw [if_pos rfl, if_pos rfl, Option.bind_some, Node.stopAll?_singleton,
                Node.stop?_zeroOrMore_of_cons (isItem_of_mem_map isItem_wordCharacters) found,
                accept_wordCharacters]
          | false => rfl
      | number =>
          have digits : ∀ item ∈ [Node.one (.single (.range '0' '9'))], item.IsItem :=
            List.forall_mem_singleton.mpr ⟨.range '0' '9', show '0' ≤ '9' by decide, rfl⟩
          simp only [startedBy?_eq_number_iff]
          rw [compiled, numberPattern, Sequence.stop?_only, Node.stopAll?_singleton,
            Node.stop?_onceOrMore digits found, accept_digit]
          rfl
      | _ => cases signed
  | some sign =>
      have plain : symbol.compiled.root = .only [.one (.literal sign)] := by
        cases symbol <;> cases signed <;> rfl
      have alone : symbol.goesOnWith = fun _ => false := by
        cases symbol <;> cases signed <;> rfl
      simp only [startedBy?_eq_some_iff_of_sign? signed]
      rw [plain, Sequence.stop?_only, Node.stopAll?_singleton, Node.stop?_one _ place, Kind.literal,
        Kind.stop?_single _ found, alone]
      have none : rest.takeWhile (fun _ => false) = [] := by cases rest <;> rfl
      simp only [none, CharClass.accepts, decide_eq_true_eq]
      rfl

end Match

end Symbol

namespace Expression

open Lexer

variable {text rest : Text} {offset : Nat} {c : Char}

/-! ### What comes next -/

/-- The lexer of expressions tries the symbols in the order in which they are listed. -/
theorem rules_expressionLexer :
    expressionLexer.rules = Symbol.all.map fun symbol => (symbol, symbol.compiled) := by
  simp only [expressionLexer, Symbol.compile_pattern, Except.toOption, Option.map_some]
  rfl

/-- Where a character starts a symbol the rule of the symbol has a match that isn't empty. -/
theorem exists_matchAt?_compiled (found : text.rest? offset = some (c :: rest)) {symbol : Symbol}
    (starts : Symbol.startedBy? c = some symbol) :
    ∃ m, symbol.compiled.matchAt? text offset = some m ∧ m.isEmpty = false ∧
      m.stop = offset + Text.size (c :: rest.takeWhile symbol.goesOnWith) := by
  have stops := symbol.compiled.map_stop_matchAt? (Text.isPlace_of_rest? found)
  rw [symbol.stop?_compiled found, if_pos starts] at stops
  obtain ⟨m, matched, ends⟩ := Option.map_eq_some_iff.mp stops
  obtain ⟨_, start, _, _⟩ := Pattern.extent_of_matchAt? matched
  have := c.utf8Size_pos
  refine ⟨m, matched, decide_eq_false ?_, ends⟩
  rw [start, ends, Text.size_cons]
  omega

/-- Where a character doesn't start a symbol the rule of the symbol has no match. -/
theorem barren_compiled (found : text.rest? offset = some (c :: rest)) {symbol : Symbol}
    (other : Symbol.startedBy? c ≠ some symbol) :
    Barren text offset (symbol, symbol.compiled) := by
  have stops := symbol.compiled.map_stop_matchAt? (Text.isPlace_of_rest? found)
  rw [symbol.stop?_compiled found, if_neg other, Option.map_eq_none_iff] at stops
  intro m matched
  cases stops.symm.trans matched

/-- The first rule that has a match is that of the symbol which the character starts. -/
theorem firstMatch?_eq (found : text.rest? offset = some (c :: rest)) :
    firstMatch? expressionLexer.rules text offset =
      (Symbol.startedBy? c).map fun symbol =>
        (symbol, offset + Text.size (c :: rest.takeWhile symbol.goesOnWith)) := by
  rw [rules_expressionLexer]
  cases starts : Symbol.startedBy? c with
  | none =>
      refine firstMatch?_of_barren fun rule mem => ?_
      obtain ⟨symbol, _, rfl⟩ := List.mem_map.mp mem
      exact barren_compiled found (by simp [starts])
  | some symbol =>
      obtain ⟨m, matched, nonempty, ends⟩ := exists_matchAt?_compiled found starts
      obtain ⟨before, after, all, first⟩ := List.eq_append_cons_of_mem symbol.mem_all
      have wins : Wins (Symbol.all.map fun symbol => (symbol, symbol.compiled)) text offset symbol
          m := by
        refine ⟨before.map fun symbol => (symbol, symbol.compiled), symbol.compiled,
          after.map fun symbol => (symbol, symbol.compiled), by rw [all]; simp, ?_, matched,
          nonempty⟩
        intro rule mem
        obtain ⟨other, earlier, rfl⟩ := List.mem_map.mp mem
        refine barren_compiled found ?_
        rw [starts]
        rintro ⟨⟩
        exact first earlier
      rw [wins.firstMatch?_eq, ends]
      rfl

/-- Over whitespace the lexer goes on to what is behind it. -/
theorem tokensFrom_of_whitespace (found : text.rest? offset = some (c :: rest))
    (whitespace : isWhitespace c = true) :
    expressionLexer.tokensFrom text offset =
      expressionLexer.tokensFrom text (offset + c.utf8Size) := by
  have same : expressionLexer.start? text offset =
      expressionLexer.start? text (offset + c.utf8Size) := by
    simp only [start?, expressionLexer, if_true, Text.skipWhitespace?, found,
      Text.rest?_of_rest?_cons found, Option.map_some, List.takeWhile_cons, whitespace,
      Text.size_cons, Nat.add_assoc]
  rw [expressionLexer.tokensFrom_eq text offset, expressionLexer.tokensFrom_eq text (offset + _),
    next, next, same]

/-- From every other character on the lexer does as the scanner. -/
theorem next_expressionLexer (found : text.rest? offset = some (c :: rest))
    (visible : isWhitespace c = false) :
    expressionLexer.next text offset =
      match Symbol.startedBy? c with
      | none => .stray ⟨c, offset⟩
      | some symbol =>
          let value := c :: rest.takeWhile symbol.goesOnWith
          .token ⟨symbol, String.ofList value, offset⟩ (offset + Text.size value) := by
  have here : expressionLexer.start? text offset = some offset := by
    simp only [start?, expressionLexer, if_true, Text.skipWhitespace?, found, Option.map_some,
      List.takeWhile_cons, visible]
    rfl
  rw [next, here]
  simp only [found, firstMatch?_eq found]
  cases Symbol.startedBy? c with
  | none => rfl
  | some symbol =>
      have value : text.slice? offset
          (offset + Text.size (c :: rest.takeWhile symbol.goesOnWith)) =
            some (c :: rest.takeWhile symbol.goesOnWith) := by
        obtain ⟨front, rfl, rfl⟩ := Text.rest?_eq_some_iff.mp found
        refine Text.slice?_eq_some_iff.mpr ⟨front, rest.dropWhile symbol.goesOnWith, ?_, rfl, rfl⟩
        rw [List.cons_append, List.takeWhile_append_dropWhile]
      simp only [Option.map_some, value, Option.getD_some]

/-! ### All that comes -/

/-- From a place on the lexer finds what the scanner does. -/
theorem tokensFrom_eq_scan (found : text.rest? offset = some rest) :
    expressionLexer.tokensFrom text offset = scan offset rest := by
  fun_induction scan offset rest with
  | case1 offset =>
      have atEnd : expressionLexer.Finds text offset .done := by
        have sized := Text.size_of_rest?_eq_some found
        rw [Text.size_nil, Nat.add_zero] at sized
        rw [sized]
        exact .done (expressionLexer.skips_size text)
      rw [expressionLexer.tokensFrom_eq, atEnd.next_eq]
  | case2 offset c rest whitespace ih =>
      rw [tokensFrom_of_whitespace found whitespace, ih (Text.rest?_of_rest?_cons found)]
  | case3 offset c rest visible starts =>
      rw [expressionLexer.tokensFrom_eq,
        next_expressionLexer found (Bool.not_eq_true _ ▸ visible), starts]
  | case4 offset c rest visible symbol starts value tokens stray more ih =>
      have behind : text.rest? (offset + Text.size value) =
          some (rest.dropWhile symbol.goesOnWith) := by
        apply Text.rest?_of_rest?_append value
        rw [List.cons_append, List.takeWhile_append_dropWhile]
        exact found
      have later := ih behind
      rw [more] at later
      rw [expressionLexer.tokensFrom_eq,
        next_expressionLexer found (Bool.not_eq_true _ ▸ visible), starts]
      simp only
      rw [later]

/-- The lexer of expressions and the scanner give the same tokens and the same stray
character. To read from the lexer one at a time gives the scanner's tokens, then the error
for the stray character if there is one, and nothing more. -/
theorem tokens_eq_scan (text : Text) :
    expressionLexer.tokens text = scan 0 text ∧
      ∀ n, expressionLexer.read? text n {} =
        ((scan 0 text).1.map .ok ++
          (scan 0 text).2.toList.map fun stray =>
            .error (.unexpectedCharacter stray.content stray.offset))[n]? := by
  have same : expressionLexer.tokensFrom text 0 = scan 0 text :=
    tokensFrom_eq_scan (Text.rest?_eq_some_iff.mpr ⟨[], rfl, rfl⟩)
  refine ⟨same, fun n => ?_⟩
  have splits : expressionLexer.Splits text 0 (scan 0 text).1 (scan 0 text).2 :=
    (tokensFrom_eq_iff text.isPlace_zero).mp same
  rw [splits.read?_eq n, readings]
  cases (scan 0 text).2 <;> rfl

/-- The scanner takes the longest identifier and number, but one sign at a time. -/
example : scan 0 "A1_b2+(30 \x0b~".toList =
    ([⟨.identifier, "A1_b2", 0⟩, ⟨.plus, "+", 5⟩, ⟨.leftParen, "(", 6⟩, ⟨.number, "30", 7⟩],
      some ⟨'~', 11⟩) := by
  decide +kernel

end Expression

end TextGrammar
