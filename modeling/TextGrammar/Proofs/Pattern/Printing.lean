import TextGrammar.Proofs.Pattern.WellFormed

/-!
Printing patterns.

Every sequence of a pattern can be written down so that it is read back as the
same sequence. `printSequence` writes it in glyphs and `print` in characters;
`glyphs_print` says that the characters are taken for those glyphs. A character
with a meaning of its own is escaped, and a quantifier is written with bounds, so
each part is read as it was printed unless what follows could go on with it: a
hyphen behind an item of a set (`readSetItem_single`), a digit behind a number
(`readDigits_printNumber`), a sign of repetition behind a node without one
(`readQuantifier_print?`).
-/

namespace TextGrammar.Pattern

/-! ### Glyphs and their text -/

/-- The characters that a glyph is written with. -/
def Glyph.text : Glyph → Text
  | .plain c => [c]
  | .escaped c => ['\\', c]
  | .dangling => ['\\']

/-- Glyphs one after another, the first of them at an offset. -/
def place (offset : Nat) : List Glyph → Glyphs
  | [] => []
  | glyph :: glyphs => ⟨glyph, offset⟩ :: place (offset + glyph.text.size) glyphs

@[simp] theorem place_nil (offset : Nat) : place offset [] = [] := rfl

@[simp] theorem place_cons (offset : Nat) (glyph : Glyph) (glyphs : List Glyph) :
    place offset (glyph :: glyphs) =
      ⟨glyph, offset⟩ :: place (offset + glyph.text.size) glyphs := rfl

/-- What follows other glyphs is placed behind all their text. -/
@[simp] theorem place_append (offset : Nat) (front back : List Glyph) :
    place offset (front ++ back) =
      place offset front ++ place (offset + Text.size (front.flatMap Glyph.text)) back := by
  induction front generalizing offset with
  | nil => rfl
  | cons glyph front ih => simp [ih, Nat.add_assoc]

/-- A glyph that is not half of another. -/
def Glyph.IsWhole : Glyph → Prop
  | .plain c => c ≠ '\\'
  | .escaped _ => True
  | .dangling => False

/-- A character in front of a text is no backslash if it neither ends nor escapes it. -/
theorem ne_backslash {c : Char} {text : Text} (noEnd : c = '\\' → text = [] → False)
    (noEscape : ∀ d rest, c = '\\' → text = d :: rest → False) : c ≠ '\\' := by
  rintro rfl
  cases text with
  | nil => exact noEnd rfl rfl
  | cons d rest => exact noEscape d rest rfl rfl

theorem glyphs_cons_of_ne {c : Char} (unescaped : c ≠ '\\') (offset : Nat) (text : Text) :
    glyphs offset (c :: text) = ⟨.plain c, offset⟩ :: glyphs (offset + c.utf8Size) text := by
  rw [glyphs]
  · rintro rfl
    exact absurd rfl unescaped
  · rintro _ _ rfl
    exact absurd rfl unescaped

/-- Whole glyphs are read from their text. -/
theorem glyphs_flatMap_text (offset : Nat) {written : List Glyph}
    (whole : ∀ glyph ∈ written, glyph.IsWhole) :
    glyphs offset (written.flatMap Glyph.text) = place offset written := by
  induction written generalizing offset with
  | nil => rfl
  | cons glyph written ih =>
      obtain ⟨first, more⟩ := List.forall_mem_cons.mp whole
      rw [List.flatMap_cons, place_cons, ← ih _ more]
      cases glyph with
      | plain c =>
          rw [Glyph.text, List.singleton_append, glyphs_cons_of_ne first]
          rfl
      | escaped c => simp [Glyph.text, glyphs]
      | dangling => exact first.elim

/-! ### Characters -/

/-- The characters that have a meaning of their own outside of sets. -/
def reserved : List Char := ['\\', '(', ')', '[', '|', '.', '*', '+', '?', '{']

/-- The characters that have a meaning of their own in sets. -/
def reservedInSets : List Char := ['\\', ']', '-', '^']

/-- A character that is to mean itself. -/
def Glyph.literal (reserved : List Char) (c : Char) : Glyph :=
  if c ∈ reserved then .escaped c else .plain c

/-- The glyph for a class that takes no more than one; a range takes three. -/
def classGlyph (reserved : List Char) : CharClass → Glyph
  | .literal c => .literal reserved c
  | .whitespace => .escaped 's'
  | .notWhitespace => .escaped 'S'
  | .word => .escaped 'w'
  | .notWord => .escaped 'W'
  | .digit => .escaped 'd'
  | .notDigit => .escaped 'D'
  | .dot | .range _ _ => .plain '.'

def printItem : CharClass → List Glyph
  | .range low high =>
      [.literal reservedInSets low, .plain '-', .literal reservedInSets high]
  | chars => [classGlyph reservedInSets chars]

/-- A character class that may stand alone is read outside sets as what it was printed
from. -/
theorem kind?_classGlyph {chars : CharClass} (alone : chars.IsAlone) :
    (classGlyph reserved chars).kind? = some (.single chars) := by
  cases chars with
  | literal c =>
      rw [classGlyph, Glyph.literal]
      split
      · rename_i mem
        simp only [reserved, List.mem_cons, List.not_mem_nil, or_false] at mem
        rcases mem with rfl | rfl | rfl | rfl | rfl | rfl | rfl | rfl | rfl | rfl <;> rfl
      · rename_i free
        have : c ≠ '.' := by
          rintro rfl
          exact free (by decide)
        simp [Glyph.kind?, Kind.literal]
  | range => exact alone.elim
  | _ => rfl

/-- A literal is read inside sets as itself, however it had to be escaped there. -/
theorem item?_literal (c : Char) :
    (Glyph.literal reservedInSets c).item? = some (.literal c) := by
  rw [Glyph.literal]
  split
  · rename_i mem
    simp only [reservedInSets, List.mem_cons, List.not_mem_nil, or_false] at mem
    rcases mem with rfl | rfl | rfl | rfl <;> rfl
  · rfl

/-! ### Sets -/

/-- The items of a set are read one by one, up to the closing bracket. -/
theorem readSetItems_of_readSetItem {opened : Nat} {first : Located Glyph}
    {rest middle left : Glyphs} {item : CharClass} {items : List CharClass}
    (opens : first.content ≠ .plain ']') (one : readSetItem first rest = .ok (item, middle))
    (more : readSetItems opened middle = .ok (items, left)) :
    readSetItems opened (first :: rest) = .ok (item :: items, left) := by
  rw [readSetItems, if_neg opens]
  split
  · exact absurd (one.symm.trans ‹_›) (by simp)
  · cases one.symm.trans ‹_›
    rw [more]

/-- What is left doesn't start with one of these characters. -/
def Avoids (chars : List Char) (rest : Glyphs) : Prop :=
  ∀ glyph ∈ rest.head?, ∀ c ∈ chars, glyph.content ≠ .plain c

/-- A reserved character is escaped where it stands for itself, so it can't be taken for a
sign. -/
theorem literal_ne_plain {reserved : List Char} {c d : Char} (mem : d ∈ reserved) :
    Glyph.literal reserved c ≠ .plain d := by
  rw [Glyph.literal]
  split
  · simp
  · rename_i free
    rintro ⟨⟩
    exact free mem

/-- No class that may stand alone is printed as a reserved sign, the dot apart. -/
theorem classGlyph_ne_plain {reserved : List Char} {chars : CharClass} {d : Char}
    (mem : d ∈ reserved) (single : d ≠ '.') : classGlyph reserved chars ≠ .plain d := by
  cases chars with
  | literal c => exact literal_ne_plain mem
  | dot | range => simpa [classGlyph] using single.symm
  | _ => simp [classGlyph]

/-- An item of a set is a range or has a single glyph. -/
theorem range_or_printItem_eq (item : CharClass) :
    (∃ low high, item = .range low high) ∨
      (∀ low high, item ≠ .range low high) ∧
        printItem item = [classGlyph reservedInSets item] := by
  cases item with
  | range low high => exact .inl ⟨low, high, rfl⟩
  | _ => exact .inr ⟨by simp, rfl⟩

/-- No item of a set looks like the end of the set, a negation or a range. -/
theorem avoids_printItem (offset : Nat) (item : CharClass) (rest : Glyphs) :
    Avoids [']', '-', '^'] (place offset (printItem item) ++ rest) := by
  have special : ∀ c ∈ [']', '-', '^'], c ∈ reservedInSets ∧ c ≠ '.' := by
    simp [reservedInSets]
  intro glyph head c mem
  obtain ⟨mem, single⟩ := special c mem
  rcases range_or_printItem_eq item with ⟨low, high, rfl⟩ | ⟨_, printed⟩
  · obtain rfl : _ = glyph := by simpa [printItem] using head
    exact literal_ne_plain mem
  · obtain rfl : _ = glyph := by simpa [printed] using head
    exact classGlyph_ne_plain mem single

/-- A class in a set is read as it was printed, unless a hyphen follows. -/
theorem readSetItem_single {item : CharClass} (isItem : item.IsItem)
    (single : ∀ low high, item ≠ .range low high) {offset : Nat} {rest : Glyphs}
    (avoids : Avoids ['-'] rest) :
    readSetItem ⟨classGlyph reservedInSets item, offset⟩ rest = .ok (item, rest) := by
  cases item with
  | literal c =>
      simp only [readSetItem, classGlyph, item?_literal]
      split
      · rename_i last left
        exact absurd rfl (avoids _ rfl '-' (by simp))
      · rfl
  | range low high => exact absurd rfl (single low high)
  | dot => exact isItem.elim
  | _ => rfl

/-- A range is read back with its two ends. -/
theorem readSetItem_range {low high : Char} (ordered : low ≤ high) {offset middle last : Nat}
    (rest : Glyphs) :
    readSetItem ⟨.literal reservedInSets low, offset⟩
        (⟨.plain '-', middle⟩ :: ⟨.literal reservedInSets high, last⟩ :: rest) =
      .ok (.range low high, rest) := by
  have opens : Glyph.literal reservedInSets high ≠ .plain ']' := literal_ne_plain (by decide)
  simp only [readSetItem, item?_literal, if_neg opens, if_neg (Char.not_lt.mpr ordered)]

/-- A printed item is read as that item, unless a minus after it would make it the start
of a range. -/
theorem readSetItems_printItem {opened offset : Nat} {item : CharClass} (isItem : item.IsItem)
    {rest left : Glyphs} {items : List CharClass} (avoids : Avoids ['-'] rest)
    (more : readSetItems opened rest = .ok (items, left)) :
    readSetItems opened (place offset (printItem item) ++ rest) = .ok (item :: items, left) := by
  rcases range_or_printItem_eq item with ⟨low, high, rfl⟩ | ⟨single, printed⟩
  · exact readSetItems_of_readSetItem (literal_ne_plain (by decide))
      (readSetItem_range isItem rest) more
  · rw [printed]
    exact readSetItems_of_readSetItem (classGlyph_ne_plain (by decide) (by decide))
      (readSetItem_single isItem single avoids) more

/-- Behind any items of a set stand more of them or the end of the set. -/
theorem avoids_items (offset last : Nat) (items : List CharClass) (rest : Glyphs) :
    Avoids ['-', '^'] (place offset (items.flatMap printItem) ++ ⟨.plain ']', last⟩ :: rest) := by
  cases items with
  | nil =>
      rintro glyph ⟨⟩
      simp
  | cons item items =>
      rw [List.flatMap_cons, place_append, List.append_assoc]
      intro glyph head c mem
      exact avoids_printItem offset item _ glyph head c (List.mem_cons_of_mem _ mem)

/-- The printed items of a set are read back up to the bracket that closes it. -/
theorem readSetItems_print {opened last : Nat} {items : List CharClass} (rest : Glyphs)
    (all : ∀ item ∈ items, item.IsItem) : ∀ offset : Nat,
    readSetItems opened (place offset (items.flatMap printItem) ++ ⟨.plain ']', last⟩ :: rest) =
      .ok (items, rest) := by
  induction items with
  | nil =>
      intro offset
      rw [List.flatMap_nil, place_nil, List.nil_append, readSetItems, if_pos rfl]
  | cons item items ih =>
      intro offset
      obtain ⟨isItem, more⟩ := List.forall_mem_cons.mp all
      rw [List.flatMap_cons, place_append, List.append_assoc]
      refine readSetItems_printItem isItem ?_ (ih more _)
      intro glyph head c mem
      exact avoids_items _ last items rest glyph head c (by simp_all)

/-- The glyphs of a set between its brackets, with the closing one. -/
def printSet (items : List CharClass) (negated : Bool) : List Glyph :=
  (if negated then [.plain '^'] else []) ++ (items.flatMap printItem ++ [.plain ']'])

/-- The printed contents of a set are read back, and whether it is negated. -/
theorem readSet_print {items : List CharClass} (all : ∀ item ∈ items, item.IsItem)
    (negated : Bool) (opened offset : Nat) (rest : Glyphs) :
    readSet opened (place offset (printSet items negated) ++ rest) =
      .ok (.set (items.map fun item => ⟨.single item, none⟩) negated, rest) := by
  cases negated with
  | true =>
      simp [readSet, printSet, readSetItems_print rest all, Node.one]
  | false =>
      obtain ⟨last, placed⟩ : ∃ last, place offset (printSet items false) ++ rest =
          place offset (items.flatMap printItem) ++ ⟨.plain ']', last⟩ :: rest :=
        ⟨offset + Text.size ((items.flatMap printItem).flatMap Glyph.text), by simp [printSet]⟩
      have plain : Option.any (fun first : Located Glyph => decide (first.content = .plain '^'))
          (place offset (items.flatMap printItem) ++ ⟨.plain ']', last⟩ :: rest).head? = false := by
        rw [Option.any_eq_false]
        intro glyph head
        simpa using avoids_items offset last items rest glyph head '^' (by decide)
      rw [readSet, placed]
      simp only [plain, Bool.false_eq_true, if_false, readSetItems_print rest all]
      rfl

/-- A printed set is read back as one atom. -/
theorem readAtom_printSet {items : List CharClass} (all : ∀ item ∈ items, item.IsItem)
    (negated : Bool) (opened offset : Nat) (rest : Glyphs) :
    readAtom ⟨.plain '[', opened⟩ (place offset (printSet items negated) ++ rest) =
      .ok (.set (items.map fun item => ⟨.single item, none⟩) negated, rest) := by
  rw [readAtom, if_pos rfl, readSet_print all]

/-! ### Quantifiers -/

def printNumber (n : Nat) : List Glyph :=
  (Nat.toDigits 10 n).map .plain

/-- Bounds with a comma and the closing brace. -/
def printBounds (quantifier : Quantifier) : List Glyph :=
  printNumber quantifier.min ++
    .plain ',' :: (quantifier.max.elim [] printNumber ++ [.plain '}'])

/-- Digits are read up to the first character that is none. -/
theorem readDigits_append {digits : List Char} (all : ∀ c ∈ digits, c.isDigit = true)
    {offset next : Nat} {c : Char} (ends : c.isDigit = false) (rest : Glyphs) :
    readDigits (place offset (digits.map .plain) ++ ⟨.plain c, next⟩ :: rest) =
      (digits, ⟨.plain c, next⟩ :: rest) := by
  induction digits generalizing offset with
  | nil => simp [readDigits, Glyph.digit?, ends]
  | cons d digits ih =>
      obtain ⟨isDigit, more⟩ := List.forall_mem_cons.mp all
      simp [readDigits, Glyph.digit?, isDigit, ih more]

/-- A printed number is read back digit by digit, if no digit follows it. -/
theorem readDigits_printNumber (n offset next : Nat) {c : Char} (ends : c.isDigit = false)
    (rest : Glyphs) :
    readDigits (place offset (printNumber n) ++ ⟨.plain c, next⟩ :: rest) =
      (Nat.toDigits 10 n, ⟨.plain c, next⟩ :: rest) :=
  readDigits_append (fun _ mem => Nat.isDigit_of_mem_toDigits (by decide) (by decide) mem) ends rest

/-- Two numbers with a comma between them are read as a minimum and a maximum. -/
theorem readBounds?_between {min max : Nat} (minSmall : min ≤ maxNumber)
    (maxSmall : max ≤ maxNumber) (first comma second brace : Nat) (rest : Glyphs) :
    readBounds? (place first (printNumber min) ++ ⟨.plain ',', comma⟩ ::
        (place second (printNumber max) ++ ⟨.plain '}', brace⟩ :: rest)) =
      some (⟨min, some max⟩, rest) := by
  have high := readDigits_printNumber max second brace (show '}'.isDigit = false by decide) rest
  rw [readBounds?, readDigits_printNumber min first comma (by decide), number?_toDigits minSmall]
  split <;> rename_i same
  · cases same
  · -- A digit follows the comma, so the bounds don't end there.
    rw [(List.cons.inj same).2] at high
    exact absurd (congrArg Prod.fst high).symm Nat.toDigits_ne_nil
  · rename_i least
    cases least
    rw [← (List.cons.inj same).2, high, number?_toDigits maxSmall]
    rfl
  · exact absurd rfl (same _ _ _ rfl)

/-- Printed bounds are read back, brace included, if a reader may hold their numbers. -/
theorem readBounds?_print {quantifier : Quantifier} (inBounds : quantifier.InBounds)
    (offset : Nat) (rest : Glyphs) :
    readBounds? (place offset (printBounds quantifier) ++ rest) = some (quantifier, rest) := by
  obtain ⟨min, max⟩ := quantifier
  cases max with
  | none =>
      unfold readBounds?
      simp [printBounds, readDigits_printNumber, number?_toDigits inBounds.min_small,
        Quantifier.atLeast]
  | some max =>
      have read := readBounds?_between inBounds.min_small (inBounds.max_small max rfl)
      simp [printBounds, read]

/-- Printed bounds are read as a quantifier from the opening brace on. -/
theorem readQuantifier_print {quantifier : Quantifier} (inBounds : quantifier.InBounds)
    (brace offset : Nat) (rest : Glyphs) :
    readQuantifier (⟨.plain '{', brace⟩ :: (place offset (printBounds quantifier) ++ rest)) =
      .ok (some quantifier, rest) := by
  obtain ⟨min, max⟩ := quantifier
  cases max with
  | none => simp only [readQuantifier, readBounds?_print inBounds offset rest]
  | some max =>
      simp only [readQuantifier, readBounds?_print inBounds offset rest,
        if_neg (Nat.not_lt.mpr (inBounds.min_le max rfl))]

/-- The signs of repetitions. -/
def signs : List Char := ['*', '+', '?', '{']

def printQuantifier? (quantifier : Option Quantifier) : List Glyph :=
  quantifier.elim [] fun q => .plain '{' :: printBounds q

/-- Where no sign of a quantifier follows, no quantifier is read. -/
theorem readQuantifier_eq_none {rest : Glyphs} (avoids : Avoids signs rest) :
    readQuantifier rest = .ok (none, rest) := by
  unfold readQuantifier
  split
  · exact absurd rfl (avoids _ rfl '*' (by decide))
  · exact absurd rfl (avoids _ rfl '+' (by decide))
  · exact absurd rfl (avoids _ rfl '?' (by decide))
  · exact absurd rfl (avoids _ rfl '{' (by decide))
  · rfl

/-- A printed quantifier is read back, and none is read where none was printed. -/
theorem readQuantifier_print? {quantifier : Option Quantifier}
    (inBounds : ∀ q, quantifier = some q → q.InBounds) (offset : Nat) {rest : Glyphs}
    (avoids : Avoids signs rest) :
    readQuantifier (place offset (printQuantifier? quantifier) ++ rest) =
      .ok (quantifier, rest) := by
  cases quantifier with
  | none => exact readQuantifier_eq_none avoids
  | some q => exact readQuantifier_print (inBounds q rfl) offset _ rest

/-! ### Sequences -/

/-- The class of characters that an item of a set stands for. -/
def itemClass : Node → CharClass
  | ⟨.single chars, _⟩ => chars
  | _ => .dot

mutual

def printKind : Kind → List Glyph
  | .group _ body => .plain '(' :: (printSequence body ++ [.plain ')'])
  | .set items negated => .plain '[' :: printSet (items.map itemClass) negated
  | .single chars => [classGlyph reserved chars]
  | .wordBoundary => [.escaped 'b']
  | .reference _ => []

def printNode : Node → List Glyph
  | ⟨kind, quantifier⟩ => printKind kind ++ printQuantifier? quantifier

def printNodes : List Node → List Glyph
  | [] => []
  | node :: nodes => printNode node ++ printNodes nodes

def printSequence : Sequence → List Glyph
  | .only nodes => printNodes nodes
  | .either nodes alternate => printNodes nodes ++ .plain '|' :: printSequence alternate

end

/-- A source for a sequence. -/
def print (root : Sequence) : String :=
  String.ofList ((printSequence root).flatMap Glyph.text)

/-! ### Texts -/

/-- An escaped literal is one glyph, where the backslash is among the reserved characters. -/
theorem isWhole_literal {reserved : List Char} (mem : '\\' ∈ reserved) (c : Char) :
    (Glyph.literal reserved c).IsWhole := by
  rw [Glyph.literal]
  split
  · exact trivial
  · rename_i free
    rintro rfl
    exact free mem

/-- A character class is printed as one glyph. -/
theorem isWhole_classGlyph {reserved : List Char} (mem : '\\' ∈ reserved) (chars : CharClass) :
    (classGlyph reserved chars).IsWhole := by
  cases chars with
  | literal c => exact isWhole_literal mem c
  | dot | range => exact fun same => absurd same (by decide)
  | _ => exact trivial

theorem isWhole_plain {c : Char} (unescaped : c ≠ '\\') : (Glyph.plain c).IsWhole := unescaped

theorem isWhole_printItem (item : CharClass) : ∀ glyph ∈ printItem item, glyph.IsWhole := by
  rcases range_or_printItem_eq item with ⟨low, high, rfl⟩ | ⟨_, printed⟩
  · simp only [printItem, List.forall_mem_cons]
    exact ⟨isWhole_literal (by decide) low, isWhole_plain (by decide),
      isWhole_literal (by decide) high, by simp⟩
  · simp only [printed, List.forall_mem_cons]
    exact ⟨isWhole_classGlyph (by decide) item, by simp⟩

theorem isWhole_printSet (items : List CharClass) (negated : Bool) :
    ∀ glyph ∈ printSet items negated, glyph.IsWhole := by
  rw [printSet, List.forall_mem_append, List.forall_mem_append]
  refine ⟨?_, fun glyph mem => ?_, List.forall_mem_singleton.mpr (isWhole_plain (by decide))⟩
  · cases negated with
    | true => exact List.forall_mem_singleton.mpr (isWhole_plain (by decide))
    | false => simp
  · obtain ⟨item, _, printed⟩ := List.mem_flatMap.mp mem
    exact isWhole_printItem item glyph printed

theorem isWhole_printNumber (n : Nat) : ∀ glyph ∈ printNumber n, glyph.IsWhole := by
  rw [printNumber, List.forall_mem_map]
  rintro c mem rfl
  have isDigit : '\\'.isDigit = true :=
    Nat.isDigit_of_mem_toDigits (by decide) (by decide) mem
  exact absurd isDigit (by decide)

theorem isWhole_printQuantifier? (quantifier : Option Quantifier) :
    ∀ glyph ∈ printQuantifier? quantifier, glyph.IsWhole := by
  cases quantifier with
  | none => simp [printQuantifier?]
  | some q =>
      have most : ∀ glyph ∈ q.max.elim [] printNumber, glyph.IsWhole := by
        cases q.max with
        | none => simp
        | some max => exact isWhole_printNumber max
      simp only [printQuantifier?, Option.elim_some, printBounds, List.forall_mem_cons,
        List.forall_mem_append]
      exact ⟨isWhole_plain (by decide), isWhole_printNumber q.min, isWhole_plain (by decide), most,
        isWhole_plain (by decide), by simp⟩

mutual

/-- What is printed of a kind is split into the same glyphs again. -/
theorem isWhole_printKind : ∀ kind : Kind, ∀ glyph ∈ printKind kind, glyph.IsWhole
  | .group number body => by
      rw [printKind, List.forall_mem_cons, List.forall_mem_append]
      exact ⟨isWhole_plain (by decide), isWhole_printSequence body,
        List.forall_mem_singleton.mpr (isWhole_plain (by decide))⟩
  | .set items negated => by
      rw [printKind, List.forall_mem_cons]
      exact ⟨isWhole_plain (by decide), isWhole_printSet _ negated⟩
  | .single chars => by
      rw [printKind, List.forall_mem_singleton]
      exact isWhole_classGlyph (by decide) chars
  | .wordBoundary => by
      rw [printKind, List.forall_mem_singleton]
      exact trivial
  | .reference name => by simp [printKind]

theorem isWhole_printNodes : ∀ nodes : List Node, ∀ glyph ∈ printNodes nodes, glyph.IsWhole
  | [] => by simp [printNodes]
  | ⟨kind, quantifier⟩ :: nodes => by
      rw [printNodes, printNode, List.forall_mem_append, List.forall_mem_append]
      exact ⟨⟨isWhole_printKind kind, isWhole_printQuantifier? quantifier⟩,
        isWhole_printNodes nodes⟩

/-- A sequence is printed in whole glyphs. -/
theorem isWhole_printSequence : ∀ sequence : Sequence,
    ∀ glyph ∈ printSequence sequence, glyph.IsWhole
  | .only nodes => by
      rw [printSequence]
      exact isWhole_printNodes nodes
  | .either nodes alternate => by
      rw [printSequence, List.forall_mem_append, List.forall_mem_cons]
      exact ⟨isWhole_printNodes nodes, isWhole_plain (by decide), isWhole_printSequence alternate⟩

end

/-- What is printed is read glyph by glyph. -/
theorem glyphs_print (root : Sequence) :
    glyphs 0 (print root).toList = place 0 (printSequence root) := by
  rw [print, String.toList_ofList, glyphs_flatMap_text 0 (isWhole_printSequence root)]

end TextGrammar.Pattern
