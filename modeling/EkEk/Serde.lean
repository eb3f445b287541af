import Mathlib.Data.Option.Basic

/-!
# The JSON library

Records, markers, snapshots and messages are written out as JSON and read back. `Serde` stands for
the library at one type: what it writes for a value, and what it reads from a text. `Lawful` is what
the crates rely on, that a value is read back from what was written for it.
-/

namespace EkEk

/-- Writing out and reading back the values of one type. -/
structure Serde (T : Type*) where
  toString : T → Except String String
  fromStr : String → Except String T

namespace Serde

variable {T : Type*} (serde : Serde T)

/-- What is written for a value. -/
def text (value : T) : String := (serde.toString value).toOption.getD ""

/-- A value can be written out and is read back. -/
def Carries (value : T) : Prop :=
  ∃ text, serde.toString value = .ok text ∧ serde.fromStr text = .ok value

/-- Every value can be written out and is read back. -/
def Lawful : Prop := ∀ value, ∃ text, serde.toString value = .ok text ∧ serde.fromStr text = .ok value

variable {serde}

theorem Lawful.toString_eq (h : serde.Lawful) (value : T) :
    serde.toString value = .ok (serde.text value) := by
  obtain ⟨text, hwritten, -⟩ := h value
  rw [Serde.text, hwritten]
  rfl

theorem Lawful.fromStr_text (h : serde.Lawful) (value : T) :
    serde.fromStr (serde.text value) = .ok value := by
  obtain ⟨text, hwritten, hread⟩ := h value
  rw [Serde.text, hwritten]
  exact hread

end Serde

end EkEk
