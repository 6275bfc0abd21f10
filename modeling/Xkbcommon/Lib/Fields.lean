import Mathlib.Logic.Basic

/-!
# Items with fields

An item whose fields are read through one function `get`, each field with a type of its own. Two
items *agree except* on a field if all the others have the same value (`Fields.AgreeExcept`); an
operation that only changes one field is stated in this way, and such statements compose.

A new item that agrees with a fresh one except on its field may stand for the old item as a whole
only if the old one was fresh elsewhere (`Fields.agreeExcept_replace_iff`).
-/

namespace Fields

variable {α φ : Type*} {Value : φ → Type*}

/-- **Only one field may differ**, or none. -/
def AgreeExcept (get : α → (field : φ) → Value field) (changed : Option φ) (a b : α) : Prop :=
  ∀ field, changed ≠ some field → get a field = get b field

variable {get : α → (field : φ) → Value field} {changed : Option φ} {a b c : α}

theorem AgreeExcept.refl (a : α) : AgreeExcept get changed a a := fun _ _ => rfl

theorem AgreeExcept.symm (h : AgreeExcept get changed a b) : AgreeExcept get changed b a :=
  fun field hne => (h field hne).symm

theorem AgreeExcept.trans (h : AgreeExcept get changed a b) (h' : AgreeExcept get changed b c) :
    AgreeExcept get changed a c := fun field hne => (h field hne).trans (h' field hne)

theorem agreeExcept_replace_iff {fresh old new : α} (hnew : AgreeExcept get changed new fresh) :
    AgreeExcept get changed new old ↔ AgreeExcept get changed old fresh :=
  ⟨fun h => h.symm.trans hnew, fun h => hnew.trans h.symm⟩

end Fields
