import Xkbcommon.Calls

/-!
# Changes of components, and streams of events

`get_state_component_changes` compares two sets of components and returns a mask. This
file says what the mask means – each bit stands for one component, `Xkbcommon.Exact` –
and what a stream of events means to a listener that starts from some components:
`Xkbcommon.replay` are the components it ends with, and `Xkbcommon.ExactFrom` says that
every mask of the stream is right about the components announced just before.
-/

namespace Xkbcommon

open Masks

variable {a b : StateComponents}

/-! ### The mask of changes -/

/-- The components that `enum xkb_state_component` distinguishes. -/
inductive Component
  | modsDepressed | modsLatched | modsLocked | modsEffective
  | layoutDepressed | layoutLatched | layoutLocked | layoutEffective
  | leds | controls
  deriving DecidableEq, Repr

/-- The bit of a component. -/
def Component.bit : Component → BitVec 32
  | .modsDepressed => xkbStateModsDepressed
  | .modsLatched => xkbStateModsLatched
  | .modsLocked => xkbStateModsLocked
  | .modsEffective => xkbStateModsEffective
  | .layoutDepressed => xkbStateLayoutDepressed
  | .layoutLatched => xkbStateLayoutLatched
  | .layoutLocked => xkbStateLayoutLocked
  | .layoutEffective => xkbStateLayoutEffective
  | .leds => xkbStateLeds
  | .controls => xkbStateControls

/-- Two sets of components differ in a component. -/
def Component.Differs (a b : StateComponents) : Component → Prop
  | .modsDepressed => a.baseMods ≠ b.baseMods
  | .modsLatched => a.latchedMods ≠ b.latchedMods
  | .modsLocked => a.lockedMods ≠ b.lockedMods
  | .modsEffective => a.mods ≠ b.mods
  | .layoutDepressed => a.baseGroup ≠ b.baseGroup
  | .layoutLatched => a.latchedGroup ≠ b.latchedGroup
  | .layoutLocked => a.lockedGroup ≠ b.lockedGroup
  | .layoutEffective => a.group ≠ b.group
  | .leds => a.leds ≠ b.leds
  | .controls => a.controls ≠ b.controls

/-- **A mask is exact**: it has the bit of a component if and only if that component
differs. -/
def Exact (changed : BitVec 32) (a b : StateComponents) : Prop :=
  ∀ component : Component, anyBit changed component.bit = true ↔ component.Differs a b

/-- **`get_state_component_changes` is exact.** -/
theorem getStateComponentChanges_exact (a b : StateComponents) :
    Exact (getStateComponentChanges a b) a b := by
  intro component
  unfold getStateComponentChanges
  cases component <;>
  · simp only [anyBit_or_left, anyBit_ite_left, Component.bit, Component.Differs]
    simp +decide

/-- Which of the two comes first does not matter. -/
theorem getStateComponentChanges_comm :
    getStateComponentChanges a b = getStateComponentChanges b a := by
  simp only [getStateComponentChanges, ne_comm]

/-- Components without a difference are the same. -/
theorem eq_of_not_differs (h : ∀ component : Component, ¬component.Differs a b) : a = b := by
  have h₁ := h .modsDepressed
  have h₂ := h .modsLatched
  have h₃ := h .modsLocked
  have h₄ := h .modsEffective
  have h₅ := h .layoutDepressed
  have h₆ := h .layoutLatched
  have h₇ := h .layoutLocked
  have h₈ := h .layoutEffective
  have h₉ := h .leds
  have h₁₀ := h .controls
  simp only [Component.Differs, ne_eq, Decidable.not_not] at h₁ h₂ h₃ h₄ h₅ h₆ h₇ h₈ h₉ h₁₀
  cases a
  cases b
  simp_all

/-- **The mask is empty exactly for the same components.** -/
theorem getStateComponentChanges_eq_zero_iff (a b : StateComponents) :
    getStateComponentChanges a b = 0#32 ↔ a = b := by
  constructor
  · intro h
    refine eq_of_not_differs fun component hd => ?_
    have := (getStateComponentChanges_exact a b component).mpr hd
    simp [h] at this
  · rintro rfl
    simp [getStateComponentChanges]

/-! ### Streams of events -/

/-- The components announced by an event, to a listener that has `c`. -/
def XkbEvent.announce (c : StateComponents) : XkbEvent → StateComponents
  | .key _ _ => c
  | .componentsChange c' _ => c'

/-- The components after a stream of events, for a listener that starts with `c`. -/
def replay (c : StateComponents) (events : List XkbEvent) : StateComponents :=
  events.foldl XkbEvent.announce c

variable (c : StateComponents) (events : List XkbEvent) {events' : List XkbEvent}

@[simp] theorem replay_nil : replay c [] = c := rfl

@[simp] theorem replay_append :
    replay c (events ++ events') = replay (replay c events) events' := List.foldl_append

@[simp] theorem replay_key (dir : KeyDirection) (kc : ℕ) (events : List XkbEvent) :
    replay c (.key dir kc :: events) = replay c events := rfl

@[simp] theorem replay_componentsChange {c' : StateComponents} (changed : BitVec 32)
    (events : List XkbEvent) :
    replay c (.componentsChange c' changed :: events) = replay c' events := rfl

/-- **Every mask of a stream is exact**, relative to the components announced before. -/
def ExactFrom : StateComponents → List XkbEvent → Prop
  | _, [] => True
  | c, .key _ _ :: events => ExactFrom c events
  | c, .componentsChange c' changed :: events => Exact changed c c' ∧ ExactFrom c' events

@[simp] theorem exactFrom_append :
    ExactFrom c (events ++ events') ↔ ExactFrom c events ∧ ExactFrom (replay c events) events' := by
  induction events generalizing c with
  | nil => simp [ExactFrom]
  | cons event events ih =>
    cases event with
    | key dir kc => exact ih c
    | componentsChange c' changed =>
      rw [List.cons_append, ExactFrom, ExactFrom, ih, and_assoc]
      rfl

/-- A stream announces components. -/
def Announces (events : List XkbEvent) : Prop := ∃ c changed, .componentsChange c changed ∈ events

/-- The reference of a redirection is what a listener has. -/
theorem lastComponents_eq_replay : lastComponents c events = replay c events := by
  induction events using List.reverseRecOn with
  | nil => rfl
  | append_singleton events event ih =>
    cases event with
    | key dir kc =>
      rw [replay_append, replay_key, replay_nil, ← ih]
      simp [lastComponents]
    | componentsChange c' changed => simp [lastComponents]

/-- A stream that announces nothing is no news. -/
theorem replay_of_not_announces {events : List XkbEvent} (h : ¬Announces events)
    (c : StateComponents) : replay c events = c := by
  induction events with
  | nil => rfl
  | cons event events ih =>
    cases event with
    | key dir kc =>
      exact ih fun ⟨c', changed, hmem⟩ => h ⟨c', changed, List.mem_cons_of_mem _ hmem⟩
    | componentsChange c' changed => exact absurd ⟨c', changed, List.mem_cons_self⟩ h

/-- Once components were announced, what the listener started with does not matter. -/
theorem replay_eq_of_announces {events : List XkbEvent} (h : Announces events)
    (c c' : StateComponents) : replay c events = replay c' events := by
  induction events generalizing c c' with
  | nil => obtain ⟨_, _, h⟩ := h; simp at h
  | cons event events ih =>
    cases event with
    | key dir kc =>
      obtain ⟨a, changed, h⟩ := h
      exact ih ⟨a, changed, by simpa using h⟩ c c'
    | componentsChange a changed => rfl

end Xkbcommon
