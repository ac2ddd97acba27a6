import TextGrammar.Walk.Basic

/-!
References that stand for fixed words.

A dictionary gives each name a word, or forbids it. The resolver keeps a list of
the calls made to it.
-/

namespace TextGrammar

/-- What a name stands for; no word means that the name must not be asked for. -/
abbrev Dictionary := List (String × Option Text)

/-- A reference that was to be matched, and where. -/
structure Call where
  name : String
  offset : Nat
deriving DecidableEq, Repr

/-- Matches a name where the text goes on with its word. The calls are kept
latest first; a name without a word ends the walk. -/
def Dictionary.resolve (dictionary : Dictionary) (text : Text) : Resolver String (List Call)
  | name, offset, trace, calls =>
      let calls := ⟨name, offset⟩ :: calls
      match dictionary.lookup name with
      | none => ⟨.failed, trace, calls⟩
      | some none => ⟨.raised name, trace, calls⟩
      | some (some word) =>
          match text.rest? offset with
          | none => ⟨.misplaced, trace, calls⟩
          | some rest =>
              if word.isPrefixOf rest then
                let leaf := ParseTree.leaf name (String.ofList word) offset
                ⟨.reached (offset + word.size), trace.addTree leaf, calls⟩
              else ⟨.failed, trace, calls⟩

/-- Walks a sequence over a text with the words of a dictionary. -/
def Dictionary.walk (dictionary : Dictionary) (sequence : Sequence) (text : Text) (offset : Nat) :
    Walked String (List Call) :=
  sequence.walk { text, resolve := dictionary.resolve text } offset { } []

end TextGrammar
