import Xkbcommon.Batch
import Xkbcommon.Companion

/-!
# A machine and its listener

All calls of a machine share one batch, and a listener feeds its companion state the events as
it reads them. Reads and out-of-band updates interleave freely; a key event resets the batch, so
the listener must have reached its end. `Xkbcommon.listener_agrees`: no change is lost.
-/

namespace Xkbcommon

open List

/-- The runs of a machine, its batch and the companion of a listener. -/
inductive Listened (km : XkbKeymap) : XkbMachine → XkbEvents → XkbState → Prop
  | new (builder : XkbMachineBuilder) :
      Listened km (xkbMachineNew km builder) {} (newCompanion km builder)
  | next {sm events events' companion event} : Listened km sm events companion →
      xkbEventsNext events = (some event, events') →
      Listened km sm events' (xkbStateUpdateEvent companion event).1
  | processSynthetic {sm sm' events events' companion} (update : XkbStateUpdate) :
      Listened km sm events companion →
      xkbMachineProcessSynthetic km sm update events = .ok (sm', events') →
      Listened km sm' events' companion
  | processKey {sm sm' events events' companion} (kc : ℕ) (dir : KeyDirection) :
      Listened km sm events companion → (xkbEventsNext events).1 = none →
      xkbMachineProcessKey km sm kc dir = some (sm', events') →
      (∀ k, handledKey km sm kc dir = some k → RedirectsFresh km sm k dir) →
      Listened km sm' events' companion

/-- What is unread leads the companion to the components of the machine. -/
structure InStep (km : XkbKeymap) (sm : XkbMachine) (events : XkbEvents) (companion : XkbState) :
    Prop where
  reachable : MachineReachable km sm
  mode : companion.mode = .serverCompanion ∨ companion.mode = .legacyMixedState
  next_le : events.next ≤ events.queue.length
  fed : (feedEvents companion (events.queue.drop events.next)).components = sm.base.components

variable {km : XkbKeymap} {sm : XkbMachine} {events : XkbEvents} {companion : XkbState}

theorem Listened.inStep (h : Listened km sm events companion) : InStep km sm events companion := by
  induction h with
  | new builder => exact ⟨.init builder, .inl rfl, le_refl 0, rfl⟩
  | @next sm events events' companion event _ hnext ih =>
    obtain ⟨hsm, hmode, -, hfed⟩ := ih
    unfold xkbEventsNext at hnext
    split at hnext
    · cases hnext
    · rename_i heq
      cases hnext
      obtain ⟨hlt, rfl⟩ := List.getElem?_eq_some_iff.mp heq
      rw [drop_eq_getElem_cons hlt] at hfed
      refine ⟨hsm, ?_, hlt, hfed⟩
      cases events.queue[events.next] <;> simp [xkbStateUpdateEvent, hmode]
  | processSynthetic update _ hp ih =>
    obtain ⟨hsm, hmode, hle, hfed⟩ := ih
    obtain ⟨hnext, hqueue⟩ := processSynthetic_events hsm hp
    refine ⟨.processSynthetic update hsm hp, hmode, ?_, ?_⟩
    · rw [hnext, hqueue, length_append]
      exact Nat.le_add_right_of_le hle
    · rw [feedEvents_components hmode] at hfed ⊢
      rw [hnext, hqueue, drop_append_of_le_length hle, replay_append, hfed, changeEvents]
      split
      · assumption
      · rfl
  | @processKey sm sm' events events' companion kc dir _ hread hp hfresh ih =>
    obtain ⟨hsm, hmode, -, hfed⟩ := ih
    have hnext : events'.next = 0 := by
      obtain ⟨-, -, rfl⟩ | ⟨k, k', -, -, heq⟩ := xkbMachineProcessKey_cases hp
      · rfl
      · exact (congrArg (fun r => r.2.next) heq).symm
    -- the batch is reset, but all of it has been read
    have hall : events.queue.drop events.next = [] := by
      unfold xkbEventsNext at hread
      split at hread
      · rename_i heq
        exact drop_eq_nil_of_le (List.getElem?_eq_none_iff.mp heq)
      · cases hread
    rw [hall] at hfed
    refine ⟨.processKey kc dir hsm hp, hmode, hnext ▸ Nat.zero_le _, ?_⟩
    rw [hnext, drop_zero, feedEvents_components hmode, show companion.components = _ from hfed]
    exact (processKey_stream hsm hp).1.mpr (.inl hfresh)

/-- **A listener that reads all events agrees with the machine**, at every point of every run:
however reads, out-of-band updates and key events were interleaved, the events that are left
lead the companion to the components of the machine. -/
theorem listener_agrees (h : Listened km sm events companion) {n : ℕ}
    (hn : events.queue.length ≤ n) :
    (feedEvents companion (readEvents n events)).components = sm.base.components := by
  rw [readEvents_eq, take_of_length_le (by rw [length_drop]; omega), h.inStep.fed]

/-- A key event that redirects, after an out-of-band update that the listener has read. -/
theorem listener_agrees_redirect :
    ∃ sm events companion, Listened redirectKeymap sm events companion ∧ events.queue ≠ [] ∧
      (feedEvents companion (readEvents events.queue.length events)).components =
        sm.base.components := by
  have h : Listened redirectKeymap _ _ _ := .processKey 0 .down
    (.next (.processSynthetic lockFirstMod (.new {}) rfl) rfl) rfl rfl fun k hk => by
      cases hk
      exact redirectsFresh_single _ rfl rfl (a := redirectFirstMod) rfl
  exact ⟨_, _, _, h, by decide +kernel, listener_agrees h (le_refl _)⟩

end Xkbcommon
