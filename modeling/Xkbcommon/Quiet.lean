import Xkbcommon.Slots

/-!
# The out-of-band updates are quiet

An out-of-band update of the latches runs the real filters on faked keys. Seen from the
filter array this is *quiet*: a filter that holds something is still there, with the
same key and the same contribution, and only pending latches – which hold nothing – are
dropped or added. `Xkbcommon.QuietAt` says so for one slot, and
`Xkbcommon.Quiet` for the whole array; being quiet is transitive, so it lifts from one
filter call to `state_update_latched_locked` and `clear_all_latches_and_locks`.
-/

namespace Xkbcommon

open Masks XkbFilter FilterFunc Slots

variable {fr fr' : Frame} {f : XkbFilter} {func : FilterFunc} {o o' : Option XkbFilter} {k : KeyRef}
  {i : ℕ} {latching : ModAction} {sticky : Bool} {clear : BitVec 32}

/-- A pending latch: its key is up, and it holds nothing. -/
def Pending (f : XkbFilter) : Prop :=
  (f.func = some .modLatch ∧ f.priv = latchPending) ∨
  (f.func = some .groupLatch ∧ groupLatchLatch f.priv = latchPending)

/-- **Two states of a filter between which nothing happened to it** but bookkeeping:
flags about locks, and whether a latch whose key is down will trigger. -/
structure QuietSlot (f f' : XkbFilter) : Prop where
  key : f'.key = f.key
  func : f'.func = f.func
  refcnt : f'.refcnt = f.refcnt
  mods : f'.action.mods.mods = f.action.mods.mods
  unlockOnPress : anyBit f'.action.mods.flags actionUnlockOnPress =
    anyBit f.action.mods.flags actionUnlockOnPress
  latchFlags : f.func = some .modLatch → f'.action.mods.flags = f.action.mods.flags
  group : f'.action.group.group = f.action.group.group
  absolute : anyBit f'.action.group.flags actionAbsoluteSwitch =
    anyBit f.action.group.flags actionAbsoluteSwitch
  redirect : f'.action.redirect = f.action.redirect
  priv : f'.priv = f.priv ∨
    (f.func = some .modLatch ∧ f.priv = latchKeyDown ∧ f'.priv = noLatch) ∨
    (f.func = some .groupLatch ∧ groupLatchLatch f.priv = latchKeyDown ∧
      f'.priv = groupLatchPriv noLatch (groupLatchDelta f.priv))

namespace QuietSlot

variable {f' f'' : XkbFilter}

theorem refl (f : XkbFilter) : QuietSlot f f :=
  ⟨rfl, rfl, rfl, rfl, rfl, fun _ => rfl, rfl, rfl, rfl, .inl rfl⟩

theorem trans (h : QuietSlot f f') (h' : QuietSlot f' f'') : QuietSlot f f'' := by
  refine ⟨h'.key.trans h.key, h'.func.trans h.func, h'.refcnt.trans h.refcnt, h'.mods.trans h.mods,
    h'.unlockOnPress.trans h.unlockOnPress,
    fun hm => (h'.latchFlags (h.func.trans hm)).trans (h.latchFlags hm), h'.group.trans h.group,
    h'.absolute.trans h.absolute, h'.redirect.trans h.redirect, ?_⟩
  have hf := h.func
  rcases h.priv with hp | ⟨hm, hd, hn⟩ | ⟨hg, hd, hn⟩
  · have hp' := h'.priv
    rwa [hp, hf] at hp'
  · rcases h'.priv with hp' | ⟨-, hd', -⟩ | ⟨hg', -⟩
    · exact .inr (.inl ⟨hm, hd, hp'.trans hn⟩)
    · cases hn.symm.trans hd'
    · cases (hf.trans hm).symm.trans hg'
  · rcases h'.priv with hp' | ⟨hm', -⟩ | ⟨-, hd', -⟩
    · exact .inr (.inr ⟨hg, hd, hp'.trans hn⟩)
    · cases (hf.trans hg).symm.trans hm'
    · rw [hn, groupLatchLatch_priv (by decide)] at hd'
      cases hd'

theorem pending_iff (h : QuietSlot f f') : Pending f' ↔ Pending f := by
  unfold Pending
  rw [h.func]
  rcases h.priv with hp | ⟨hm, hd, hn⟩ | ⟨hg, hd, hn⟩
  · rw [hp]
  · simp [hm, hd, hn, latchKeyDown, latchPending, noLatch]
  · rw [hn, groupLatchLatch_priv (by decide), hd]
    simp [hg, latchKeyDown, latchPending, noLatch]

theorem slotOk (h : QuietSlot f f') (hf : SlotOk f) : SlotOk f' := by
  refine ⟨?_, fun hm => ?_, fun hm hflag => ?_, fun hg => ?_, fun hg => ?_⟩
  · rw [h.key]
    exact hf.key
  · rw [h.refcnt]
    exact hf.modLatch_refcnt (h.func ▸ hm)
  · have hm' := h.func.symm.trans hm
    rw [h.latchFlags hm'] at hflag
    have hpend := hf.modLatch_onPress hm' hflag
    rcases h.priv with hp | ⟨-, hd, -⟩ | ⟨hg, -⟩
    · exact hp.trans hpend
    · cases hpend.symm.trans hd
    · cases hm'.symm.trans hg
  · rw [h.refcnt]
    exact hf.groupLatch_refcnt (h.func ▸ hg)
  · have hg' := h.func.symm.trans hg
    rcases h.priv with hp | ⟨hm, -⟩ | ⟨-, -, hn⟩
    · rw [hp]
      exact hf.groupLatch_latch hg'
    · cases hg'.symm.trans hm
    · rw [hn]
      exact .inl (groupLatchLatch_priv (by decide))

end QuietSlot

/-- **A quiet change of a slot**: the same filter, or two states in which nothing is held.
A latch that appears belongs to the faked key. -/
def QuietAt (o o' : Option XkbFilter) : Prop :=
  (∃ f f', o = some f ∧ o' = some f' ∧ QuietSlot f f') ∨
  ((∀ f, o = some f → Pending f) ∧ ∀ f', o' = some f' → Pending f' ∧ f'.key = .syntheticKey)

theorem QuietAt.refl (o : Option XkbFilter) : QuietAt o o := by
  cases o with
  | none => exact .inr ⟨by simp, by simp⟩
  | some f => exact .inl ⟨f, f, rfl, rfl, .refl f⟩

theorem QuietAt.trans {o'' : Option XkbFilter} (h : QuietAt o o') (h' : QuietAt o' o'') :
    QuietAt o o'' := by
  rcases h with ⟨f, f', rfl, rfl, hq⟩ | ⟨hidle, hsyn⟩
  · rcases h' with ⟨g, g', hg, rfl, hq'⟩ | ⟨hidle', hsyn'⟩
    · cases hg
      exact .inl ⟨f, g', rfl, rfl, hq.trans hq'⟩
    · refine .inr ⟨fun g hg => ?_, hsyn'⟩
      cases hg
      exact hq.pending_iff.mp (hidle' f' rfl)
  · rcases h' with ⟨g, g', rfl, rfl, hq'⟩ | ⟨-, hsyn'⟩
    · refine .inr ⟨hidle, fun f' hf' => ?_⟩
      cases hf'
      exact ⟨hq'.pending_iff.mpr (hsyn g rfl).1, hq'.key.trans (hsyn g rfl).2⟩
    · exact .inr ⟨hidle, hsyn'⟩

/-- A quiet change of a slot keeps a view of it in which pending latches show nothing. -/
theorem QuietAt.bind {β : Type*} {view : XkbFilter → Option β} (h : QuietAt o o')
    (hslot : ∀ f f', QuietSlot f f' → view f' = view f)
    (hpending : ∀ f, Pending f → view f = none) : o'.bind view = o.bind view := by
  have hidle : ∀ o : Option XkbFilter, (∀ f, o = some f → Pending f) → o.bind view = none := by
    rintro (- | f) ho
    · rfl
    · exact hpending f (ho f rfl)
  rcases h with ⟨f, f', rfl, rfl, hq⟩ | ⟨hold, hnew⟩
  · exact hslot f f' hq
  · rw [hidle o hold, hidle o' fun f hf => (hnew f hf).1]

/-- A quiet change of the array: it may grow, and every slot changes quietly. -/
structure Quiet (fr fr' : Frame) : Prop where
  length : fr.state.filters.length ≤ fr'.state.filters.length
  slot : ∀ i, QuietAt (fr.slot i) (fr'.slot i)

theorem Quiet.refl (fr : Frame) : Quiet fr fr := ⟨le_refl _, fun _ => .refl _⟩

theorem Quiet.trans {fr'' : Frame} (h : Quiet fr fr') (h' : Quiet fr' fr'') :
    Quiet fr fr'' := ⟨h.length.trans h'.length, fun i => (h.slot i).trans (h'.slot i)⟩

theorem Quiet.of_filters (h : fr'.state.filters = fr.state.filters) : Quiet fr fr' := by
  refine ⟨by rw [h], fun i => ?_⟩
  rw [Frame.slot, Frame.slot, h]
  exact .refl _

/-! ### One filter, and a key that breaks latches -/

/-- The address of a key that breaks latches holds no filter. -/
theorem BreakKey.addr_ne (hk : BreakKey k) (hf : SlotOk f) : k.addr ≠ f.key := by
  intro h
  have hkey := hf.key
  rw [← h] at hkey
  cases hk <;> simp [syntheticBreakKey, KeyAddr.canHold] at hkey

/-! The internal action of such a key never promotes a latch, and breaks only latches of
its own kind. -/

theorem modLatchVerdict_breakMod :
    modLatchVerdict latching sticky
        [{ type := .internal
           internal := { flags := internalBreaksModLatch, clearLatchedMods := clear } }] =
      if clear &&& latching.mods.mask = latching.mods.mask then .breaks else .keep := by
  have hflag : anyBit internalBreaksModLatch internalBreaksModLatch = true := by decide
  simp [modLatchVerdict, xkbActionBreaksLatch, hflag]

theorem modLatchVerdict_breakGroup :
    modLatchVerdict latching sticky
        [{ type := .internal
           internal := { flags := internalBreaksGroupLatch, clearLatchedMods := clear } }] =
      .keep := by
  have hflag : anyBit internalBreaksGroupLatch internalBreaksModLatch = false := by decide
  simp [modLatchVerdict, xkbActionBreaksLatch, hflag]

theorem groupLatchVerdict_breakMod {latching : GroupAction} :
    groupLatchVerdict latching sticky
        [{ type := .internal
           internal := { flags := internalBreaksModLatch, clearLatchedMods := clear } }] =
      .keep := by
  have hflag : anyBit internalBreaksModLatch internalBreaksGroupLatch = false := by decide
  simp [groupLatchVerdict, xkbActionBreaksLatch, hflag]

theorem groupLatchVerdict_breakGroup {latching : GroupAction} :
    groupLatchVerdict latching sticky
        [{ type := .internal
           internal := { flags := internalBreaksGroupLatch, clearLatchedMods := 0#32 } }] =
      .breaks := by
  have hflag : anyBit internalBreaksGroupLatch internalBreaksGroupLatch = true := by decide
  simp [groupLatchVerdict, xkbActionBreaksLatch, hflag]

/-- **What a filter does when a key that breaks latches is pressed**: a quiet change, or
the end of a pending latch, whose contribution leaves the latched components. -/
inductive BreakOutcome (fr : Frame) (f : XkbFilter) (k : KeyRef) : FilterStep → Prop
  | quiet (f' : XkbFilter) : QuietSlot f f' → BreakOutcome fr f k ⟨fr, f', .proceed⟩
  | modLatch (clear : BitVec 32) : f.func = some .modLatch → f.priv = latchPending →
      k = syntheticBreakKey .syntheticKeyBreakModLatch internalBreaksModLatch clear →
      Sub f.action.mods.mods.mask clear →
      BreakOutcome fr f k
        ⟨fr.mapComponents fun c =>
            { c with latchedMods := c.latchedMods &&& ~~~f.action.mods.mods.mask },
          { f with func := none }, .proceed⟩
  | groupLatch : f.func = some .groupLatch → groupLatchLatch f.priv = latchPending →
      k = syntheticBreakKey .syntheticKeyBreakGroupLatch internalBreaksGroupLatch 0#32 →
      BreakOutcome fr f k
        ⟨fr.mapComponents fun c =>
            { c with latchedGroup := c.latchedGroup - groupLatchDelta f.priv },
          { f with func := none }, .proceed⟩

theorem breakKey_call (hk : BreakKey k) (hf : SlotOk f) (hfunc : f.func = some func) (fr : Frame) :
    BreakOutcome fr f k (func.call id fr f k .down) := by
  have hne := hk.addr_ne hf
  cases func with
  | modSet =>
    simp only [call, xkbFilterModSetFunc, if_pos hne]
    exact .quiet _ ⟨rfl, rfl, rfl, rfl, anyBit_and_not (by decide) _,
      fun h => absurd h (by simp [hfunc]), rfl, rfl, rfl, .inl rfl⟩
  | modLock | ctrls | redirectKey =>
    simp only [call, xkbFilterModLockFunc, xkbFilterCtrlsFunc, xkbFilterRedirectKeyFunc, if_pos hne]
    exact .quiet _ (.refl f)
  | groupSet =>
    simp only [call, xkbFilterGroupSetFunc, if_pos hne]
    exact .quiet _
      ⟨rfl, rfl, rfl, rfl, rfl, fun _ => rfl, rfl, anyBit_and_not (by decide) _, rfl, .inl rfl⟩
  | groupLock =>
    simp only [call, xkbFilterGroupLockFunc, if_pos hne]
    split
    · exact .quiet _
        ⟨rfl, rfl, rfl, rfl, rfl, fun _ => rfl, rfl, anyBit_and_not (by decide) _, rfl, .inl rfl⟩
    · exact .quiet _ (.refl f)
  | modLatch =>
    simp only [call, xkbFilterModLatchFunc]
    split
    · rename_i hdown
      split
      · exact .quiet _
          ⟨rfl, rfl, rfl, rfl, rfl, fun _ => rfl, rfl, rfl, rfl, .inr (.inl ⟨hfunc, hdown, rfl⟩)⟩
      · exact .quiet _ (.refl f)
    · split
      · rename_i hpend
        cases hk with
        | group =>
          rw [xkbKeyGetActions_syntheticBreakKey, modLatchVerdict_breakGroup]
          exact .quiet _ (.refl f)
        | mod clear =>
          rw [xkbKeyGetActions_syntheticBreakKey, modLatchVerdict_breakMod]
          by_cases hand : clear &&& f.action.mods.mods.mask = f.action.mods.mods.mask
          · rw [if_pos hand]
            refine .modLatch clear hfunc hpend rfl ?_
            rw [sub_iff_and_eq, BitVec.and_comm]
            exact hand
          · rw [if_neg hand]
            exact .quiet _ (.refl f)
      · exact .quiet _ (.refl f)
  | groupLatch =>
    simp only [call, xkbFilterGroupLatchFunc]
    split
    · rename_i hdown
      split
      · exact .quiet _
          ⟨rfl, rfl, rfl, rfl, rfl, fun _ => rfl, rfl, rfl, rfl, .inr (.inr ⟨hfunc, hdown, rfl⟩)⟩
      · exact .quiet _ (.refl f)
    · split
      · rename_i hpend
        cases hk with
        | group =>
          rw [xkbKeyGetActions_syntheticBreakKey, groupLatchVerdict_breakGroup]
          exact .groupLatch hfunc hpend rfl
        | mod clear =>
          rw [xkbKeyGetActions_syntheticBreakKey, groupLatchVerdict_breakMod]
          exact .quiet _ (.refl f)
      · exact .quiet _ (.refl f)

/-! ### Whole updates -/

/-- Replacing the filter of a slot is quiet if the filter changes quietly. -/
theorem quiet_store {step : FilterStep} (hf : fr.slot i = some f)
    (hfilters : step.frame.state.filters = fr.state.filters)
    (h : QuietAt (some f) ((some step.filter).filter busy)) : Quiet fr (step.store i) := by
  have hi : i < step.frame.state.filters.length := by
    rw [hfilters]
    exact lt_length_of_busyAt hf
  refine ⟨?_, fun j => ?_⟩
  · rw [← hfilters]
    exact (List.length_set ..).ge
  · rw [show (step.store i).slot j = _ from busyAt_set hi]
    split
    · rename_i hj
      rw [hj, hf]
      exact h
    · rw [Frame.slot, hfilters]
      exact .refl _

/-- One filter call for a key that breaks latches. -/
theorem quiet_breakKey_store (hk : BreakKey k) (hok : SlotsOk fr)
    (hf : fr.state.filters[i]? = some f) (hfunc : f.func = some func) :
    SlotsOk ((func.call id fr f k .down).store i) ∧
      Quiet fr ((func.call id fr f k .down).store i) := by
  have hslot := slot_of_func hf hfunc
  have hokf := hok.slot hslot
  have hbusy : ∀ f' : XkbFilter, f'.func = f.func →
      (some f').filter busy = some f' := by
    intro f' h
    simp [Option.filter_some, busy, h, hfunc]
  have hout := breakKey_call hk hokf hfunc fr
  generalize func.call id fr f k .down = step at hout
  have hfree : ∀ f' : XkbFilter, f'.func = none → Pending f →
      QuietAt (some f) ((some f').filter busy) := by
    intro f' h hpend
    refine .inr ⟨fun g hg => ?_, fun g hg => ?_⟩
    · cases hg
      exact hpend
    · simp [Option.filter_some, busy, h] at hg
  cases hout with
  | quiet f' hq =>
    refine ⟨SlotsOk.store hok (hq.slotOk hokf) i, quiet_store hslot rfl ?_⟩
    rw [hbusy f' hq.func]
    exact .inl ⟨f, f', rfl, rfl, hq⟩
  | modLatch clear hm hp _ _ =>
    exact ⟨SlotsOk.store hok (.of_free hokf.key rfl) i,
      quiet_store hslot rfl (hfree _ rfl (.inl ⟨hm, hp⟩))⟩
  | groupLatch hg hp _ =>
    exact ⟨SlotsOk.store hok (.of_free hokf.key rfl) i,
      quiet_store hslot rfl (hfree _ rfl (.inr ⟨hg, hp⟩))⟩

/-- Filling a free slot with a pending latch of the faked key is quiet. -/
theorem quiet_put (hkey : f.key = .syntheticKey) (hpend : Pending f)
    (h : fr'.state.filters = put fr.state.filters
      (firstFree busy fr.state.filters) f) : Quiet fr fr' := by
  refine ⟨?_, fun j => ?_⟩
  · rw [h]
    exact le_length_put
  · rw [Frame.slot, Frame.slot, h, busyAt_put firstFree_le_length]
    split
    · rename_i hj
      rw [hj, busyAt_firstFree]
      refine .inr ⟨by simp, fun g hg => ?_⟩
      rw [Option.filter_eq_some_iff] at hg
      obtain ⟨hg, -⟩ := hg
      cases hg
      exact ⟨hpend, hkey⟩
    · exact .refl _

/-- Tapping a latch. -/
theorem quiet_tapLatch (hok : SlotsOk fr) {a : XkbAction} (ha : TapAction a func) :
    SlotsOk (fr.tapLatch a func) ∧ Quiet fr (fr.tapLatch a func) := by
  have hput : ∀ (f : XkbFilter) (fr' : Frame), SlotOk f →
      fr'.state.filters = put fr.state.filters
        (firstFree busy fr.state.filters) f → SlotsOk fr' := by
    intro f fr' hf h g hg
    rw [h] at hg
    rcases mem_put hg with hg | rfl
    · exact hok g hg
    · exact hf
  cases ha with
  | mod mask =>
    obtain ⟨f, hkey, hfunc, hpriv, hcnt, -, heq⟩ := tapLatch_mod mask
    rw [heq]
    refine ⟨hput f _ ?_ rfl, quiet_put hkey (.inl ⟨hfunc, hpriv⟩) rfl⟩
    exact ⟨by rw [hkey]; rfl, fun _ => hcnt, fun _ _ => hpriv, fun h => absurd h (by simp [hfunc]),
      fun h => absurd h (by simp [hfunc])⟩
  | group group =>
    obtain ⟨f, delta, -, hkey, hfunc, hpriv, hcnt, -, heq⟩ := tapLatch_group group
    have hlatch : groupLatchLatch f.priv = latchPending := by
      rw [hpriv, groupLatchLatch_priv (by decide)]
    rw [heq]
    refine ⟨hput f _ ?_ rfl, quiet_put hkey (.inr ⟨hfunc, hlatch⟩) rfl⟩
    exact ⟨by rw [hkey]; rfl, fun h => absurd h (by simp [hfunc]),
      fun h => absurd h (by simp [hfunc]), fun _ => hcnt, fun _ => .inr (.inr hlatch)⟩

/-- **The out-of-band update of latches and locks is quiet.** -/
theorem quiet_stateUpdateLatchedLocked {km : XkbKeymap} (hok : SlotsOk fr)
    (update : XkbStateComponentsUpdate) :
    SlotsOk (stateUpdateLatchedLocked km fr update) ∧
      Quiet fr (stateUpdateLatchedLocked km fr update) := by
  refine latchedLocked_invariant (P := fun fr' => SlotsOk fr' ∧ Quiet fr fr') ?_ ?_ ?_ ?_
    ⟨hok, .refl fr⟩
  · exact fun fr' h => ⟨h.1.of_filters rfl, h.2.trans (.of_filters rfl)⟩
  · exact fun fr' m h => ⟨h.1.of_filters rfl, h.2.trans (.of_filters rfl)⟩
  · intro k i fr' f func hk h hf hfunc
    obtain ⟨hok', hq⟩ := quiet_breakKey_store hk h.1 hf hfunc
    exact ⟨hok', h.2.trans hq⟩
  · intro fr' a func ha _ h
    obtain ⟨hok', hq⟩ := quiet_tapLatch h.1 ha
    exact ⟨hok', h.2.trans hq⟩

theorem quiet_clearAllLatchesAndLocks (km : XkbKeymap) (hok : SlotsOk fr) :
    SlotsOk (clearAllLatchesAndLocks km fr) ∧ Quiet fr (clearAllLatchesAndLocks km fr) :=
  quiet_stateUpdateLatchedLocked hok clearAllUpdate

end Xkbcommon
