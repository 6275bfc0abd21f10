import Xkbcommon.Histories

/-!
# What a filter of `SetMods` holds

A key with `SetMods` holds the modifiers of its action, unless the action is to unlock on press: it
then holds those that it has not unlocked. So far as the action says nothing of the kind, what the
filter remembers is the mask of its action, in every state of a run
(`Xkbcommon.setsMasks_keyRun`). The flag to unlock on press is a good witness for this, since no
event changes it; the flag to clear locks is dropped from a filter when another key is pressed.
-/

namespace Xkbcommon

open Masks List FilterFunc

variable {f : XkbFilter} {func : FilterFunc} {fr : Frame} {k : KeyRef} {dir : KeyDirection}
  {km : XkbKeymap}

/-- A filter of `SetMods` that does not unlock on press holds all modifiers of its action. -/
def XkbFilter.SetsMask (f : XkbFilter) : Prop :=
  f.func = some .modSet → anyBit f.action.mods.flags actionUnlockOnPress = false →
    f.priv = f.action.mods.mods.mask

theorem setsMask_modSetNew (fr : Frame) (f : XkbFilter) : (xkbFilterModSetNew fr f).2.SetsMask := by
  unfold xkbFilterModSetNew
  dsimp only
  split
  · rename_i hboth
    intro _ hno
    -- both flags are set, so the one in question is
    have hflag : anyBit (f.action.mods.flags &&& unlockAndClear) actionUnlockOnPress = true := by
      rw [hboth]
      decide
    obtain ⟨i, hi, hbit⟩ := (anyBit_iff _ _).mp hflag
    rw [BitVec.getLsbD_and, Bool.and_eq_true] at hi
    have hflags := (anyBit_iff _ _).mpr ⟨i, hi.1, hbit⟩
    rw [hno] at hflags
    cases hflags
  · exact fun _ _ => rfl

/-- Only a latch becomes a filter of `SetMods`. -/
theorem setsMask_of_writes {fr' : Frame} {f' : XkbFilter} (h : Writes func fr fr' f')
    (hset : func ≠ .modSet) (hlatch : func ≠ .modLatch) : f'.SetsMask := by
  intro hfunc
  rcases h.func with heq | heq | ⟨heq, -⟩ | ⟨-, heq⟩
  · exact absurd (Option.some.inj (heq.symm.trans hfunc)) hset
  · cases heq.symm.trans hfunc
  · exact absurd heq hlatch
  · cases heq.symm.trans hfunc

/-- **One filter call.** -/
theorem XkbFilter.SetsMask.call (clearAll : Frame → Frame) (h : f.SetsMask)
    (hfunc : f.func = some func) : (func.call clearAll fr f k dir).filter.SetsMask := by
  rcases call_cases clearAll func fr f k dir with heq | ⟨-, -, controls, -, -, heq⟩
  · rw [heq]
    cases func with
    | modSet =>
      simp only [FilterFunc.call, xkbFilterModSetFunc, countedSwitch]
      split
      · intro hf hno
        exact h hf ((anyBit_and_not (by decide) _).symm.trans hno)
      · (repeat' split) <;> first | exact h | exact fun hf => by cases hf
    | modLatch =>
      have hother : ∀ f' : XkbFilter, f'.func = some .modLatch → f'.SetsMask := by
        intro f' hf' hf
        cases hf'.symm.trans hf
      simp only [FilterFunc.call, xkbFilterModLatchFunc, promoteModLatch]
      (repeat' split) <;>
        first
        | exact setsMask_modSetNew _ _
        | exact hother _ hfunc
        | exact fun hf => by cases hf
        | exact fun hf => by simp [xkbFilterModLockNew] at hf; split at hf <;> cases hf
    | _ => exact setsMask_of_writes (call_writes fr hfunc k dir) (by decide) (by decide)
  · rw [heq]
    exact fun hf => by cases hf

/-- **One action that starts.** -/
theorem setsMask_start (fr : Frame) (hfunc : f.func = some func) :
    (func.start fr f).2.SetsMask := by
  by_cases hset : func = .modSet
  · subst hset
    exact setsMask_modSetNew fr f
  · intro hf
    rcases (start_writes func fr hfunc).func with heq | heq | ⟨rfl, heq⟩ | ⟨-, heq⟩
    · exact absurd (Option.some.inj (heq.symm.trans hf)) hset
    · cases heq.symm.trans hf
    · simp only [start, xkbFilterModLatchNew] at hf
      (repeat' split at hf) <;> simp [hfunc] at hf
    · cases heq.symm.trans hf

theorem XkbFilter.SetsMask.of_quietAt {o o' : Option XkbFilter} (hq : QuietAt o o')
    (h : ∀ f, o = some f → f.SetsMask) (hf : o' = some f) : f.SetsMask := by
  intro hfunc hno
  rcases hq with ⟨g, g', rfl, hg', hq⟩ | ⟨-, hsyn⟩
  · obtain rfl : f = g' := by simpa [hf] using hg'
    have hg := hq.func.symm.trans hfunc
    rw [hq.mods, ← h g rfl hg (hq.unlockOnPress.symm.trans hno)]
    rcases hq.priv with hp | ⟨hm, -⟩ | ⟨hm, -⟩
    · exact hp
    · cases hg.symm.trans hm
    · cases hg.symm.trans hm
  · rcases (hsyn f hf).1 with ⟨hm, -⟩ | ⟨hm, -⟩ <;> cases hfunc.symm.trans hm

/-- The filters of a state. -/
def SetsMasks (s : XkbServerState) : Prop := ∀ f ∈ s.filters, f.SetsMask

/-- **A key event keeps it.** -/
theorem setsMasks_handleKey (hok : SlotsOk fr) (hk : k.addr.canHold = true)
    (h : SetsMasks fr.state) : SetsMasks (handleKey km fr k dir).state := by
  show ∀ f ∈ (updateBaseMods (xkbFilterApplyAll km fr.resetMasks k dir).state).filters, _
  rw [updateBaseMods_filters]
  refine (applyAllWith_invariant (P := fun fr => SlotsOk fr ∧ SetsMasks fr.state) ?_ ?_
    ⟨show SlotsOk fr.resetMasks from hok, h⟩).2
  · rintro i fr' f func ⟨hok', h'⟩ hf hfunc
    have hstored := callStored_call km hk hok' hf hfunc dir
    refine ⟨hstored.slotsOk, fun g hg hgfunc => ?_⟩
    obtain ⟨j, hj⟩ := getElem?_of_mem hg
    by_cases hji : j = i
    · subst hji
      obtain rfl := Option.some.inj (hj.symm.trans hstored.self)
      exact (h' f (mem_of_getElem? hf)).call _ hfunc hgfunc
    · exact XkbFilter.SetsMask.of_quietAt (hstored.other j hji)
        (fun g hg => h' g (Slots.mem_of_busyAt hg)) (slot_of_func hj hgfunc) hgfunc
  · rintro fr₁ fr' a func - - ⟨hok', h'⟩ - hfunc
    refine ⟨hok'.startFilter hk _ func, fun g hg => ?_⟩
    obtain ⟨f₀, -, -, hfunc₀, -, heq⟩ := startFilter_eq fr' k.addr func
    rw [heq] at hg
    rcases Slots.mem_put hg with hg | rfl
    · exact h' g hg
    · exact setsMask_start fr' hfunc₀

/-- **It holds along every run of key events.** -/
theorem setsMasks_keyRun (km : XkbKeymap) (m : LegacyMode) (es : List (ℕ × KeyDirection)) :
    SetsMasks (keyRun km m es) := by
  refine keyRun_invariant (P := fun _ s => SetsMasks s) ?_ ?_
  · exact fun f hf => by cases hf
  · intro pre kc dir k _ hk h
    have hok : SlotsOk ⟨keyRun km m pre, none⟩ := (serverReachable_keyRun km m).filtersOk
    exact setsMasks_handleKey hok (canHold_of_keyOf (keyOf_of_eventKey hk)) h

end Xkbcommon
