import Mathlib.Init

/-!
# Programs that may stop

A program that may stop with a fault is an `Except`. Two things are said of such programs here.
`Outcome.Returns x P` – the program does not stop, and what it returns satisfies `P`; it is the
postcondition of total correctness. `Outcome.Rel R x y` – two programs stop with the same fault
or return related values; it is what a simulation carries from one call to the next.
-/

namespace Outcome

variable {ε α α' β β' : Type} {P : α → Prop}

/-- **The program returns**, and what it returns satisfies `P`. -/
def Returns (x : Except ε α) (P : α → Prop) : Prop := ∃ a, x = .ok a ∧ P a

theorem Returns.ok {a : α} (h : P a) : Returns (.ok a : Except ε α) P := ⟨a, rfl, h⟩

variable {f : α → β} {x : Except ε α} {e : ε}

theorem Returns.mono {Q : α → Prop} (h : Returns x P) (hPQ : ∀ a, P a → Q a) : Returns x Q := by
  obtain ⟨a, hx, ha⟩ := h
  exact ⟨a, hx, hPQ a ha⟩

theorem Returns.map {P : β → Prop} (h : Returns x fun a => P (f a)) : Returns (x.map f) P := by
  obtain ⟨a, rfl, ha⟩ := h
  exact ⟨f a, rfl, ha⟩

theorem eq_error_of_map (h : x.map f = .error e) : x = .error e := by
  cases x with
  | error e' => exact congrArg _ (Except.error.inj h)
  | ok a => exact absurd h (by simp [Except.map])

/-- A program in two parts that returns has returned from both. -/
theorem bind_eq_ok {f : α → Except ε β} {b : β} (h : x.bind f = .ok b) :
    ∃ a, x = .ok a ∧ f a = .ok b := by
  cases x with
  | error e => cases h
  | ok a => exact ⟨a, rfl, h⟩

/-- A program in two parts stops in the first or in the second. -/
theorem bind_eq_error {f : α → Except ε β} (h : x.bind f = .error e) :
    x = .error e ∨ ∃ a, x = .ok a ∧ f a = .error e := by
  cases x with
  | error e' =>
    cases h
    exact .inl rfl
  | ok a => exact .inr ⟨a, rfl, h⟩

/-- **Two programs stop alike or return related values.** -/
def Rel (R : α → β → Prop) : Except ε α → Except ε β → Prop
  | .ok a, .ok b => R a b
  | .error e, .error e' => e = e'
  | _, _ => False

theorem Rel.cases {R : α → β → Prop} {y : Except ε β} (h : Rel R x y) :
    (∃ e, x = .error e ∧ y = .error e) ∨ ∃ a b, x = .ok a ∧ y = .ok b ∧ R a b := by
  cases x <;> cases y
  · exact .inl ⟨_, rfl, congrArg _ h.symm⟩
  · cases h
  · cases h
  · exact .inr ⟨_, _, rfl, rfl, h⟩

theorem Rel.map {R : α → α' → Prop} {Q : β → β' → Prop} {g : α' → β'}
    (hfg : ∀ a b, R a b → Q (f a) (g b)) {y : Except ε α'} (h : Rel R x y) :
    Rel Q (x.map f) (y.map g) := by
  obtain ⟨e, rfl, rfl⟩ | ⟨a, b, rfl, rfl, hab⟩ := h.cases
  · exact rfl
  · exact hfg a b hab

end Outcome
