import TextGrammar.Proofs.Checked
import TextGrammar.Proofs.Outline.Marks

/-!
Reading marks one at a time.

A script says how single marks are written: which tokens open and close a group
or part alternatives, and what may be read as an atom or a repetition. A reader
goes by a script (`Script.Reader`) if what it reads is what the script reads one
mark after another. Whatever the script, the marks are then balanced
(`closes_of_read`), and their groups are numbered from left to right
(`numbers_of_read`).
-/

namespace TextGrammar

/-- How marks are written in tokens of a type. -/
structure Script (τ α β : Type) where
  /-- The token opens a group, and lies at this offset. -/
  opens : τ → Nat → Prop
  closes : τ → Prop
  bars : τ → Prop
  /-- The token and some of those after it are read as an atom; the others are left. -/
  atom : τ → List τ → α → List τ → Prop
  /-- The first of the tokens, if any, are read as a repetition; the others are left. -/
  repetition : List τ → β → List τ → Prop

/-- Where reading has come to: the offsets of the groups that are open, how many
have been opened, and what is left to read. -/
structure Stage (τ : Type) where
  opened : List Nat
  groups : Nat
  rest : List τ

variable {τ α β ε : Type}

namespace Script

/-- One mark is read, and reading goes on at another stage. -/
inductive Reads (script : Script τ α β) : Stage τ → Mark α β → Stage τ → Prop where
  | opening {opened : List Nat} {groups offset : Nat} {token : τ} {rest : List τ}
      (opens : script.opens token offset) :
      Reads script ⟨opened, groups, token :: rest⟩ (.opening (groups + 1))
        ⟨offset :: opened, groups + 1, rest⟩
  | closing {opened : List Nat} {groups offset : Nat} {token : τ} {rest left : List τ}
      {repetition : β} (closes : script.closes token)
      (repeats : script.repetition rest repetition left) :
      Reads script ⟨offset :: opened, groups, token :: rest⟩ (.closing repetition)
        ⟨opened, groups, left⟩
  | bar {opened : List Nat} {groups : Nat} {token : τ} {rest : List τ}
      (bars : script.bars token) :
      Reads script ⟨opened, groups, token :: rest⟩ .bar ⟨opened, groups, rest⟩
  | atom {opened : List Nat} {groups : Nat} {token : τ} {rest middle left : List τ}
      {content : α} {repetition : β} (one : script.atom token rest content middle)
      (repeats : script.repetition middle repetition left) :
      Reads script ⟨opened, groups, token :: rest⟩ (.atom content repetition)
        ⟨opened, groups, left⟩

/-- A function from what is left to read to marks goes by a script: it is done
where nothing is left and no group is open, and else it reads one mark after another. -/
structure Reader (script : Script τ α β)
    (read : List Nat → Nat → List τ → Except ε (List (Mark α β))) : Prop where
  nil_iff : ∀ {opened groups tokens}, read opened groups tokens = .ok [] ↔
    opened = [] ∧ tokens = []
  cons_iff : ∀ {opened groups tokens mark marks}, read opened groups tokens = .ok (mark :: marks) ↔
    ∃ next : Stage τ, script.Reads ⟨opened, groups, tokens⟩ mark next ∧
      read next.opened next.groups next.rest = .ok marks

section Reader

variable {script : Script τ α β} {read : List Nat → Nat → List τ → Except ε (List (Mark α β))}
  {opened : List Nat} {groups : Nat} {tokens : List τ} {marks : List (Mark α β)}

/-- Everything that is opened is closed. -/
theorem Reader.closes (reader : script.Reader read) (ok : read opened groups tokens = .ok marks) :
    Mark.Closes opened.length marks := by
  induction marks generalizing opened groups tokens with
  | nil =>
      obtain ⟨rfl, _⟩ := reader.nil_iff.mp ok
      exact rfl
  | cons mark marks ih =>
      obtain ⟨next, step, more⟩ := reader.cons_iff.mp ok
      have later := ih more
      cases step <;> exact later

/-- Groups are numbered in the order in which they are opened. -/
theorem Reader.numbers (reader : script.Reader read) (ok : read opened groups tokens = .ok marks) :
    Mark.numbers marks = List.range' (groups + 1) (Mark.groups marks) := by
  induction marks generalizing opened groups tokens with
  | nil => rfl
  | cons mark marks ih =>
      obtain ⟨next, step, more⟩ := reader.cons_iff.mp ok
      have later := ih more
      unfold Mark.numbers Mark.groups at later ⊢
      cases step with
      | opening => simpa [List.range'_succ] using later
      | closing | bar | atom => simpa using later

end Reader

end Script

end TextGrammar
