import Xkbcommon.Batch

/-!
# The stream of events of a key

A redirection that overrides modifiers announces the overridden components, the redirected
key and then the components it started from. These are meant to be what the listener has,
but the code takes the components of the state at that moment: if nothing was announced
in this call yet, and a filter or an action has written a component before, the listener
is told of a state that the rest of the call assumes it does not know of. Such a redirection is
*stale* (`Xkbcommon.Stale`).

Only redirections queue events. What a listener has heard (`Xkbcommon.Heard`) is not changed by
one that is not stale, and once something else was heard no later one is stale.
-/

namespace Xkbcommon

open Masks FilterFunc

variable {func : FilterFunc} {f : XkbFilter} {fr : Frame} {dir : KeyDirection} {exact told : Prop}
  {previous heard : StateComponents} {k : KeyRef} {redirect : RedirectKeyAction}

/-! ### Stale redirections -/

/-- **A redirection is stale**: it announces an override of components that differ from those
before the call, and no event of the call has announced them. -/
structure Stale (previous : StateComponents) (fr : Frame) (redirect : RedirectKeyAction) :
    Prop where
  silent : ¬Announces (fr.events.getD [])
  written : fr.state.components ≠ previous
  affect : redirect.affect ≠ 0#32
  overrides : redirectComponents redirect fr.state.components ≠ fr.state.components

/-- **What a listener has heard** that had the components before the call. Whether anything was
announced, and whether the masks are exact, may depend on how the stream began. -/
def Heard (exact told : Prop) (previous heard : StateComponents) (fr : Frame) : Prop :=
  ∃ queue, fr.events = some queue ∧ replay previous queue = heard ∧ (told → Announces queue) ∧
    (exact → ExactFrom previous queue)

theorem Heard.of_events {fr' : Frame} (h : Heard exact told previous heard fr)
    (heq : fr'.events = fr.events) : Heard exact told previous heard fr' := by
  obtain ⟨queue, hev, hrest⟩ := h
  exact ⟨queue, heq.trans hev, hrest⟩

/-- Once something was announced, no redirection is stale. -/
theorem Stale.not_told (hstale : Stale previous fr redirect)
    (h : Heard exact told previous heard fr) : ¬told := by
  obtain ⟨queue, hev, -, htold, -⟩ := h
  have hsilent := hstale.silent
  rw [hev, Option.getD_some] at hsilent
  exact mt htold hsilent

/-- **A redirection that is not stale** tells the listener nothing new in the end. -/
theorem Heard.appendRedirect (h : Heard exact told previous heard fr)
    (hfresh : ¬Stale previous fr redirect) (dir : KeyDirection) :
    Heard exact told previous heard (fr.appendRedirect redirect dir) := by
  obtain ⟨queue, hev, rfl, htold, hexact⟩ := h
  have hann : ∀ tail, told → Announces (queue ++ tail) := fun tail ht => by
    obtain ⟨c, changed, hmem⟩ := htold ht
    exact ⟨c, changed, List.mem_append_left _ hmem⟩
  rw [Heard, Frame.appendRedirect, hev, Option.map_some]
  unfold appendRedirectKeyEvents
  simp only [lastComponents_eq_replay]
  by_cases hchanged : (if redirect.affect = 0#32 then 0#32 else getStateComponentChanges
      (replay fr.state.components queue)
      (redirectComponents redirect (replay fr.state.components queue))) = 0#32
  · rw [if_pos hchanged]
    exact ⟨_, rfl, by simp, hann _, fun he => (exactFrom_append ..).mpr ⟨hexact he, trivial⟩⟩
  · rw [if_neg hchanged]
    have haffect : redirect.affect ≠ 0#32 := fun h0 => hchanged (if_pos h0)
    rw [if_neg haffect] at hchanged ⊢
    -- the redirection refers to what the listener has
    have hlast : replay fr.state.components queue = replay previous queue := by
      by_cases hann : Announces queue
      · exact replay_eq_of_announces hann _ _
      · rw [replay_of_not_announces hann, replay_of_not_announces hann]
        rw [replay_of_not_announces hann, getStateComponentChanges_eq_zero_iff] at hchanged
        by_contra hne
        exact hfresh ⟨by rwa [hev], hne, haffect, fun heq => hchanged heq.symm⟩
    rw [hlast]
    refine ⟨_, rfl, by simp, hann _,
      fun he => (exactFrom_append ..).mpr ⟨hexact he, ?_, ?_, trivial⟩⟩
    · exact getStateComponentChanges_exact _ _
    · rw [getStateComponentChanges_comm]
      exact getStateComponentChanges_exact _ _

/-- **A stale redirection** leaves the listener with the components of the moment. -/
theorem Stale.appendRedirect (hstale : Stale previous fr redirect)
    (h : Heard exact told previous heard fr) (dir : KeyDirection) :
    Heard False True previous fr.state.components (fr.appendRedirect redirect dir) := by
  obtain ⟨queue, hev, -⟩ := h
  have hsilent := hstale.silent
  rw [hev, Option.getD_some] at hsilent
  have hchanged : ¬getStateComponentChanges fr.state.components
      (redirectComponents redirect fr.state.components) = 0#32 := fun h0 =>
    hstale.overrides ((getStateComponentChanges_eq_zero_iff _ _).mp h0).symm
  rw [Heard, Frame.appendRedirect, hev, Option.map_some]
  unfold appendRedirectKeyEvents
  simp only [lastComponents_eq_replay, replay_of_not_announces hsilent, hstale.affect, if_false,
    hchanged]
  exact ⟨_, rfl, by simp, fun _ => ⟨_, _, List.mem_append_right _ List.mem_cons_self⟩, False.elim⟩

/-! ### What queues events -/

/-- Only redirections queue events. -/
theorem events_call (km : XkbKeymap) (hok : SlotsOk fr) (h : func ≠ .redirectKey) :
    (func.call (clearAllLatchesAndLocks km) fr f k dir).frame.events = fr.events := by
  rcases call_cases (clearAllLatchesAndLocks km) func fr f k dir with
    heq | ⟨-, -, controls, -, -, heq⟩ <;> rw [heq]
  · exact (local_call func fr f k dir).events h
  · have hok' : SlotsOk (fr.setControls controls) := hok.mapComponents _
    exact (clearAll_effect km hok').2.1.events

/-- What a redirection does with an event: it ignores other keys. -/
theorem redirectKey_call (fr : Frame) (f : XkbFilter) (k : KeyRef) (dir : KeyDirection) :
    (k.addr ≠ f.key ∧ (xkbFilterRedirectKeyFunc fr f k dir).frame = fr) ∨
      (k.addr = f.key ∧ ∃ dir', (xkbFilterRedirectKeyFunc fr f k dir).frame =
        fr.appendRedirect f.action.redirect dir') := by
  unfold xkbFilterRedirectKeyFunc
  split
  · exact .inl ⟨‹_›, rfl⟩
  · rename_i hk
    refine .inr ⟨not_not.mp hk, ?_⟩
    cases dir with
    | up => exact ⟨.up, rfl⟩
    | repeated => exact ⟨.repeated, rfl⟩
    | down =>
      dsimp only
      split
      · exact ⟨.up, rfl⟩
      · exact ⟨.down, rfl⟩

/-- Resolving makes no redirection, and leaves its key alone. -/
theorem resolveAction_redirectKey {km : XkbKeymap} {s : XkbServerState} {a : XkbAction}
    (h : (resolveAction km s a).type.filterFunc = some .redirectKey) :
    a.type = .redirectKey ∧ (resolveAction km s a).redirect.keycode = a.redirect.keycode := by
  have htype : (resolveAction km s a).type = .redirectKey := by
    cases ht : (resolveAction km s a).type <;> simp [ht, XkbActionType.filterFunc] at h ⊢
  have ha : a.type = .redirectKey := by
    rcases resolveAction_type km with heq | ⟨-, heq⟩ | ⟨-, heq⟩
    · exact heq.symm.trans htype
    · cases heq.symm.trans htype
    · cases heq.symm.trans htype
  refine ⟨ha, ?_⟩
  simp only [resolveAction, ha]

end Xkbcommon
