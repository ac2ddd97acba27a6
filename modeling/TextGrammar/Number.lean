/-!
Numbers as they are written in sources and data.

Bounds, offsets and group numbers are natural numbers of at most 64 bits. A
larger one is no number at all.
-/

namespace TextGrammar

def maxNumber : Nat := 0xffffffffffffffff

def digitsValue (digits : List Char) : Nat :=
  digits.foldl (fun value c => 10 * value + (c.toNat - '0'.toNat)) 0

/-- The number that ASCII digits denote, unless there are none or it is too
large. -/
def number? (digits : List Char) : Option Nat :=
  if digits ≠ [] ∧ digits.all Char.isDigit ∧ digitsValue digits ≤ maxNumber then
    some (digitsValue digits)
  else none

theorem number?_eq_some_iff {digits : List Char} {n : Nat} :
    number? digits = some n ↔
      digits ≠ [] ∧ (∀ c ∈ digits, c.isDigit = true) ∧ digitsValue digits = n ∧ n ≤ maxNumber := by
  unfold number?
  constructor
  · intro denotes
    split at denotes
    · rename_i conditions
      obtain ⟨nonempty, all, small⟩ := conditions
      cases denotes
      exact ⟨nonempty, List.all_eq_true.mp all, rfl, small⟩
    · cases denotes
  · rintro ⟨nonempty, all, rfl, small⟩
    rw [if_pos ⟨nonempty, List.all_eq_true.mpr all, small⟩]

/-- A number of 64 bits is denoted by its decimal digits. -/
theorem number?_toDigits {n : Nat} (small : n ≤ maxNumber) : number? (Nat.toDigits 10 n) = some n :=
  number?_eq_some_iff.mpr
    ⟨Nat.toDigits_ne_nil, fun _ mem => Nat.isDigit_of_mem_toDigits (by decide) (by decide) mem,
      Nat.ofDigitChars_toDigits (by decide) (by decide), small⟩

end TextGrammar
