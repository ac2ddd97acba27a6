import TextGrammar.Number

/-!
JSON values.

Fields keep their order, and a name may occur twice, until something is read
from an object: then a field that is asked for must not be repeated, and fields
that nobody asks for do not matter.
-/

namespace TextGrammar

inductive Json where
  | null
  | bool (value : Bool)
  /-- A number without sign, fraction and exponent. -/
  | natural (value : Nat)
  /-- Any other number, as it is written. -/
  | decimal (text : String)
  | string (value : String)
  | array (items : List Json)
  | object (fields : List (String × Json))
  /-- Well-formed text that stands for no value, because an escape in a string
  or in the name of a field denotes no character. -/
  | unreadable

namespace Json

def natural? : Json → Option Nat
  | .natural n => if n ≤ maxNumber then some n else none
  | _ => none

def bool? : Json → Option Bool
  | .bool b => some b
  | _ => none

def string? : Json → Option String
  | .string s => some s
  | _ => none

/-- The character that a string of one character consists of. -/
def char? : Json → Option Char
  | .string s =>
      match s.toList with
      | [c] => some c
      | _ => none
  | _ => none

/-- What every item of an array is read as. -/
def list? {α : Type} (read : Json → Option α) : Json → Option (List α)
  | .array items => items.mapM read
  | _ => none

/-- A value that may be null instead. -/
def nullable? {α : Type} (read : Json → Option α) : Json → Option (Option α)
  | .null => some none
  | json => (read json).map some

def fields? : Json → Option (List (String × Json))
  | .object fields => some fields
  | _ => none

end Json

/-- What is found under a name in an object. -/
inductive JsonField where
  | absent
  | present (value : Json)
  | repeated

namespace Json

def field (name : String) (fields : List (String × Json)) : JsonField :=
  match fields.filter fun entry => entry.1 = name with
  | [] => .absent
  | [(_, value)] => .present value
  | _ => .repeated

/-- The value of a field that must be there. -/
def required? {α : Type} (name : String) (read : Json → Option α)
    (fields : List (String × Json)) : Option α :=
  match field name fields with
  | .present value => read value
  | _ => none

/-- The value of a field that stands for something else when it is absent. -/
def optional? {α : Type} (name : String) (read : Json → Option α) (absent : α)
    (fields : List (String × Json)) : Option α :=
  match field name fields with
  | .absent => some absent
  | .present value => read value
  | .repeated => none

/-- A field is smaller than the object it is found in. -/
theorem sizeOf_lt_of_field {name : String} {fields : List (String × Json)} {value : Json}
    (found : field name fields = .present value) : sizeOf value < sizeOf fields := by
  unfold field at found
  split at found
  · cases found
  · rename_i key value' only
    cases found
    have member : (key, value) ∈ fields := by
      have : (key, value) ∈ fields.filter fun entry => entry.1 = name := by simp [only]
      exact (List.mem_filter.mp this).1
    have := List.sizeOf_lt_of_mem member
    simp only [Prod.mk.sizeOf_spec] at this
    omega
  · cases found

end Json

end TextGrammar
