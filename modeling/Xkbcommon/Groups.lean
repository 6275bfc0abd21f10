import Xkbcommon.Shifts
import Xkbcommon.Histories
import Xkbcommon.Lib.Runs

/-!
# The depressed group over runs of key events

When all keys are up, no group is depressed (`Xkbcommon.no_stuck_group`). The invariant is
a balance: the depressed group is the sum of the shifts of the filters, and a filter that
shifts the group belongs to a key that is down (`Xkbcommon.GroupBalance`).

`LatchGroup` takes off what it added, whatever happened in between. `SetGroup` does not: it
puts back the group that it found. So the balance holds along the runs in which a `SetGroup`
key finds, when it is released, the group that it left (`Xkbcommon.restoresGroup`) – two such
keys that are released in the order in which they were pressed break it.
-/

namespace Xkbcommon

open Masks Holds List Option XkbAction Xkbcommon.Frame

variable {es : List (ℕ × KeyDirection)} {s : XkbServerState} {func : FilterFunc}
  {dir : KeyDirection} {km : XkbKeymap} {a : XkbAction} {fr₀ fr : Frame} {k : KeyRef} {kc : ℕ}

/-! ### The loop over the filters -/

section Loop

variable {i j : ℕ} {c : Bool} {f : XkbFilter}

/-- **What a key event finds**: the key shifts the group once at most, not at all if it is
pressed, and if it is released, its filters find the group that they left. -/
structure ShiftsReady (k : KeyRef) (dir : KeyDirection) (fr : Frame) : Prop where
  once : ∀ i j g g', fr.groupHolds i = some g → fr.groupHolds j = some g' →
    g.key = k.addr → g'.key = k.addr → i = j
  count : ∀ i g, fr.groupHolds i = some g → g.count = 1
  down : dir = .down → ∀ i g, fr.groupHolds i = some g → g.key ≠ k.addr
  restore : dir = .up → ∀ i f, fr.slot i = some f → f.func = some .groupSet → f.key = k.addr →
    applyGroupDelta f.action.group f.priv = fr.baseGroup
  fits : dir = .up → Bitfield.Fits 30 (0#32 - fr.baseGroup)
  fits_ended : dir = .up → ∀ i g, fr.groupHolds i = some g → g.key = k.addr →
    Bitfield.Fits 30 (0#32 - (fr.baseGroup - g.shift))

/-- **The invariant of the loop over the filters.** -/
structure ShiftInv (k : KeyRef) (dir : KeyDirection) (fr₀ : Frame) (i : ℕ) (fr : Frame)
    (c : Bool) : Prop where
  slotsOk : SlotsOk fr
  footprint : Footprint fr₀ fr
  ahead : ∀ j, i ≤ j → QuietAt (fr₀.slot j) (fr.slot j)
  done : ∀ j < i, fr.groupHolds j =
    (fr₀.groupHolds j).filter fun g => !(dir == .up && g.key == k.addr)
  balance : fr.baseGroup = fr.totalShift
  base : fr.baseGroup = fr₀.baseGroup ∨ (dir = .up ∧ ∃ j < i, ∃ g, fr₀.groupHolds j = some g ∧
    g.key = k.addr ∧ fr.baseGroup = fr₀.baseGroup - g.shift)
  consumed : dir = .repeated → ∀ j < i, ∀ g, fr₀.groupHolds j = some g → g.key = k.addr → c = true

theorem ShiftInv.init (hok : SlotsOk fr₀) (hbalance : fr₀.baseGroup = fr₀.totalShift) :
    ShiftInv k dir fr₀ 0 fr₀ false where
  slotsOk := hok
  footprint := .refl fr₀
  ahead := fun _ _ => .refl _
  done := fun j hj => absurd hj (Nat.not_lt_zero j)
  balance := hbalance
  base := .inl rfl
  consumed := fun _ j hj => absurd hj (Nat.not_lt_zero j)

/-- The shifts of the slots ahead are those that the event found. -/
theorem ShiftInv.groupHolds_ahead (h : ShiftInv k dir fr₀ i fr c) (hj : i ≤ j) :
    fr.groupHolds j = fr₀.groupHolds j := (h.ahead j hj).groupHold

/-- A step that leaves the shifts alone: the slot has no shift of a released key. -/
theorem ShiftInv.keep (h : ShiftInv k dir fr₀ i fr c) {fr' : Frame} {c' : Bool}
    (hok : SlotsOk fr') (hfoot : Footprint fr₀ fr')
    (hahead : ∀ j, i + 1 ≤ j → QuietAt (fr₀.slot j) (fr'.slot j))
    (hholds : ∀ j, fr'.groupHolds j = fr.groupHolds j) (hbase : fr'.baseGroup = fr.baseGroup)
    (hc : c = true → c' = true)
    (hown : ∀ g, fr₀.groupHolds i = some g → g.key = k.addr →
      dir ≠ .up ∧ (dir = .repeated → c' = true)) : ShiftInv k dir fr₀ (i + 1) fr' c' := by
  refine ⟨hok, hfoot, hahead, fun j hj => ?_, ?_, ?_, fun hdir j hj g hg hkey => ?_⟩
  · rw [hholds j]
    rcases Nat.lt_succ_iff_lt_or_eq.mp hj with hj | rfl
    · exact h.done j hj
    · rw [h.groupHolds_ahead (le_refl j)]
      refine Option.ext fun g => (and_iff_left_of_imp fun hg => ?_).symm.trans
        filter_eq_some_iff.symm
      by_contra hcon
      obtain ⟨hup, hkey⟩ : dir = .up ∧ g.key = k.addr := by simpa using hcon
      exact (hown g hg hkey).1 hup
  · rw [hbase, h.balance, totalShift_congr hholds]
  · rw [hbase]
    exact h.base.imp_right fun ⟨hdir, j, hj, hg⟩ => ⟨hdir, j, by omega, hg⟩
  · rcases Nat.lt_succ_iff_lt_or_eq.mp hj with hj | rfl
    · exact hc (h.consumed hdir j hj g hg hkey)
    · exact (hown g hg hkey).2 hdir

theorem ShiftInv.skip (h : ShiftInv k dir fr₀ i fr c) (hf : fr.state.filters[i]? = some f)
    (hfunc : f.func = none) : ShiftInv k dir fr₀ (i + 1) fr c := by
  refine h.keep h.slotsOk h.footprint (fun j hj => h.ahead j (by omega)) (fun _ => rfl) rfl id ?_
  intro g hg
  rw [← h.groupHolds_ahead (le_refl i), groupHolds_of_getElem hf, groupHold_of_free hfunc] at hg
  cases hg

/-- A released key that still has a shift ahead finds the group as it was. -/
theorem ShiftInv.base_of_ahead (h : ShiftInv k dir fr₀ i fr c) (hready : ShiftsReady k dir fr₀)
    (hj : i ≤ j) {g : GroupHold} (hg : fr₀.groupHolds j = some g) (hkey : g.key = k.addr) :
    fr.baseGroup = fr₀.baseGroup := by
  rcases h.base with hbase | ⟨-, j', hj', g', hg', hkey', -⟩
  · exact hbase
  · have := hready.once j j' g g' hg hg' hkey hkey'
    omega

/-- **One filter keeps the invariant.** -/
theorem ShiftInv.call (km : XkbKeymap) (hk : k.addr.canHold = true) (hready : ShiftsReady k dir fr₀)
    (h : ShiftInv k dir fr₀ i fr c) (hf : fr.state.filters[i]? = some f)
    (hfunc : f.func = some func) :
    ShiftInv k dir fr₀ (i + 1) ((func.call (clearAllLatchesAndLocks km) fr f k dir).store i)
      (c || (func.call (clearAllLatchesAndLocks km) fr f k dir).result == .consume) := by
  have hslot := slot_of_func hf hfunc
  have hold : fr.groupHolds i = f.groupHold := groupHolds_of_getElem hf
  have hold₀ : fr₀.groupHolds i = f.groupHold := (h.groupHolds_ahead (le_refl i)).symm.trans hold
  have hstep : ShiftStep k dir fr f (func.call (clearAllLatchesAndLocks km) fr f k dir) := by
    refine shiftStep_call_clearAll km h.slotsOk (h.slotsOk.slot hslot) hfunc ?_ ?_ ?_ ?_
    · exact fun g hg hdown => hready.down hdown i g (hold₀.trans hg)
    · exact fun g hg => hready.count i g (hold₀.trans hg)
    · intro hup hset hkey
      -- a quiet change keeps what the filter restores
      obtain ⟨f₀, hf₀, hq⟩ : ∃ f₀, fr₀.slot i = some f₀ ∧ QuietSlot f₀ f := by
        rcases h.ahead i (le_refl i) with ⟨f₀, f', hf₀, hf', hq⟩ | ⟨-, hsyn⟩
        · obtain rfl := Option.some.inj (hf'.symm.trans hslot)
          exact ⟨f₀, hf₀, hq⟩
        · rcases (hsyn f hslot).1 with ⟨hm, -⟩ | ⟨hm, -⟩ <;> cases hset.symm.trans hm
      have hset₀ : f₀.func = some .groupSet := hq.func.symm.trans hset
      have hpriv : f.priv = f₀.priv := by
        refine hq.priv.resolve_right ?_
        rintro (⟨hm, -⟩ | ⟨hm, -⟩) <;> cases hset₀.symm.trans hm
      rw [h.base_of_ahead hready (le_refl i) (hold₀.trans (groupHold_groupSet hset)) hkey, hpriv,
        ← hready.restore hup i f₀ hf₀ hset₀ (hq.key.symm.trans hkey), applyGroupDelta,
        applyGroupDelta, hq.absolute, hq.group]
    · intro hup
      rcases h.base with hbase | ⟨-, j, -, g, hg, hkey, hbase⟩
      · rw [hbase]
        exact hready.fits hup
      · rw [hbase]
        exact hready.fits_ended hup j g hg hkey
  have hstored := callStored_call km hk h.slotsOk hf hfunc dir
  generalize func.call (clearAllLatchesAndLocks km) fr f k dir = step at *
  have hother : ∀ j, j ≠ i → (step.store i).groupHolds j = fr.groupHolds j :=
    fun j hj => (hstored.other j hj).groupHold
  have hself : (step.store i).groupHolds i = step.filter.groupHold :=
    groupHolds_of_getElem hstored.self
  have hahead := hstored.ahead h.ahead
  have hfoot := h.footprint.trans hstored.footprint
  cases hstep with
  | kept hhold hbase hown =>
    refine h.keep hstored.slotsOk hfoot hahead (fun j => ?_) hbase (fun hc => by simp [hc]) ?_
    · by_cases hj : j = i
      · rw [hj, hself, hold, hhold]
      · exact hother j hj
    · intro g hg hkey
      obtain ⟨hup, hconsume⟩ := hown g (hold₀.symm.trans hg) hkey
      exact ⟨hup, fun hdir => by simp [hconsume hdir]⟩
  | ended g hup hg hkey hnone hbase =>
    have hbefore := h.base_of_ahead hready (le_refl i) (hold₀.trans hg) hkey
    refine ⟨hstored.slotsOk, hfoot, hahead, fun j hj => ?_, ?_, ?_, ?_⟩
    · rcases Nat.lt_succ_iff_lt_or_eq.mp hj with hj | rfl
      · rw [hother j (by omega)]
        exact h.done j hj
      · rw [hself, hold₀, hnone, hg, filter_some, if_neg (by simp [hup, hkey])]
    · rw [totalShift_change hf hself hother, XkbFilter.shift, XkbFilter.shift, hnone, hg,
        ← h.balance]
      show step.frame.baseGroup = fr.baseGroup + (0#32 - g.shift)
      rw [hbase]
      bv_omega
    · refine .inr ⟨hup, i, Nat.lt_succ_self i, g, hold₀.trans hg, hkey, ?_⟩
      rw [← hbefore]
      exact hbase
    · exact fun hdir => absurd (hup.symm.trans hdir) (by decide)

end Loop

/-! ### The loop over the actions -/

/-- The actions that shift the depressed group. -/
def XkbAction.shiftsGroup (a : XkbAction) : Bool := a.type == .groupSet || a.type == .groupLatch

section Actions

variable {fr₁ : Frame}

/-- **What a key event does to the shifts**: those of a released key end, and a key that is
pressed or repeats may begin one. -/
structure ShiftTurn (k : KeyRef) (dir : KeyDirection) (fr₀ fr : Frame) : Prop where
  balance : fr.baseGroup = fr.totalShift
  origin : ∀ j g, fr.groupHolds j = some g →
    (fr₀.groupHolds j = some g ∧ (dir = .up → g.key ≠ k.addr)) ∨
    (dir ≠ .up ∧ fr₀.groupHolds j = none ∧ g.key = k.addr ∧ g.count = 1 ∧
      (∀ j' g', fr₀.groupHolds j' = some g' → g'.key ≠ k.addr) ∧
      ∃ a ∈ xkbKeyGetActions fr₀.state.toXkbState k.key, a.shiftsGroup = true)
  once : ∀ j j' g g', fr₀.groupHolds j = none → fr.groupHolds j = some g →
    fr₀.groupHolds j' = none → fr.groupHolds j' = some g' → j = j'

/-- The filters that shift the group are started by the actions that do. -/
theorem shiftsGroup_eq :
    a.shiftsGroup = ((resolveAction km s a).type.filterFunc == some .groupSet ||
      (resolveAction km s a).type.filterFunc == some .groupLatch) := by
  rw [shiftsGroup]
  rcases resolveAction_type km with h | ⟨h, h'⟩ | ⟨h, h'⟩
  · rw [h]
    cases a.type <;> rfl
  · rw [h, h']
    rfl
  · rw [h, h']
    rfl

/-- Resolving does not change what a group action does. -/
theorem applyGroupDelta_resolveAction (component : BitVec 32) :
    applyGroupDelta (resolveAction km s a).group component = applyGroupDelta a.group component := by
  have hflag : ∀ flags extra : BitVec 32, anyBit extra actionAbsoluteSwitch = false →
      anyBit (flags ||| extra) actionAbsoluteSwitch = anyBit flags actionAbsoluteSwitch :=
    fun flags extra h => by rw [anyBit_or_left, h, Bool.or_false]
  unfold resolveAction applyGroupDelta
  dsimp only
  split <;> (try split) <;> (try rfl)
  dsimp only
  rw [hflag _ _ (by split <;> decide)]

/-- **A group action shifts the depressed group** by what its filter remembers, if that fits
the filter. -/
theorem groupHold_start {f₀ : XkbFilter} (hfunc : f₀.func = some func) (hcnt : f₀.refcnt = 1)
    (hshift : func = .groupSet ∨ func = .groupLatch)
    (hfits : Bitfield.Fits 30 (applyGroupDelta f₀.action.group fr.baseGroup - fr.baseGroup)) :
    ∃ x, (func.start fr f₀).2.groupHold = some ⟨f₀.key, 1, x⟩ ∧
      (func.start fr f₀).1.baseGroup = fr.baseGroup + x := by
  refine ⟨applyGroupDelta f₀.action.group fr.baseGroup - fr.baseGroup, ?_⟩
  rw [add_sub_cancel]
  rcases hshift with rfl | rfl
  · refine ⟨?_, rfl⟩
    simp only [FilterFunc.start, xkbFilterGroupSetNew, XkbFilter.groupHold, hfunc, hcnt]
    rfl
  · refine ⟨?_, rfl⟩
    have hdelta : (if anyBit f₀.action.group.flags actionAbsoluteSwitch
          then f₀.action.group.group - fr.state.components.baseGroup
          else f₀.action.group.group) =
        applyGroupDelta f₀.action.group fr.baseGroup - fr.baseGroup := by
      unfold applyGroupDelta
      split
      · rfl
      · rw [add_sub_cancel_left]
    simp only [FilterFunc.start, xkbFilterGroupLatchNew, XkbFilter.groupHold, hfunc, hcnt, hdelta]
    rw [groupLatchLatch_priv (by decide), groupLatchDelta_priv (by decide) hfits,
      if_neg (by decide)]

/-- **The invariant of the loop over the actions**: the shifts are those at its start,
and one new shift at most, once a group action has been started. -/
structure ActionInv (k : KeyRef) (fr₁ : Frame) (pre : List XkbAction) (fr : Frame) : Prop where
  balance : fr.baseGroup = fr.totalShift
  same : pre.countP XkbAction.shiftsGroup = 0 →
    fr.baseGroup = fr₁.baseGroup ∧ ∀ j, fr.groupHolds j = fr₁.groupHolds j
  origin : ∀ j g, fr.groupHolds j = some g → fr₁.groupHolds j = some g ∨
    (fr₁.groupHolds j = none ∧ g.key = k.addr ∧ g.count = 1)
  once : ∀ j j' g g', fr₁.groupHolds j = none → fr.groupHolds j = some g →
    fr₁.groupHolds j' = none → fr.groupHolds j' = some g' → j = j'

theorem ActionInv.init (hbalance : fr₁.baseGroup = fr₁.totalShift) : ActionInv k fr₁ [] fr₁ where
  balance := hbalance
  same := fun _ => ⟨rfl, fun _ => rfl⟩
  origin := fun _ _ hg => .inl hg
  once := fun j _ g _ hj hg => absurd (hj.symm.trans hg) (by simp)

/-- Starting an action keeps the invariant. -/
theorem ActionInv.start {pre : List XkbAction} (h : ActionInv k fr₁ pre fr)
    (hone : (pre ++ [a]).countP shiftsGroup ≤ 1)
    (hfits : a.shiftsGroup = true →
      Bitfield.Fits 30 (applyGroupDelta a.group fr₁.baseGroup - fr₁.baseGroup))
    (hfunc : (resolveAction km fr.state a).type.filterFunc = some func) :
    ActionInv k fr₁ (pre ++ [a]) (fr.startFilter k.addr (resolveAction km fr.state a) func).1 := by
  obtain ⟨i, f₀, hkey, haction, hf₀, hcnt, hfree, ⟨filters, heq, hput⟩, hslots⟩ := slot_startFilter
  have htotal : (fr.startFilter k.addr (resolveAction km fr.state a) func).1.totalShift =
      fr.totalShift + (func.start fr f₀).2.shift := by
    rw [heq, totalShift, hput]
    refine Slots.total_put_firstFree (fun f hf => ?_)
    rw [XkbFilter.shift, groupHold_of_free (by simpa [XkbFilter.busy] using hf)]
    rfl
  have hiff : a.shiftsGroup = true ↔ func = .groupSet ∨ func = .groupLatch := by
    rw [shiftsGroup_eq, hfunc]
    simp
  have hwrites := start_writes func fr hf₀
  have hgroup : a.shiftsGroup = true → Bitfield.Fits 30
      (applyGroupDelta f₀.action.group fr.baseGroup - fr.baseGroup) → ∃ x,
      (func.start fr f₀).2.groupHold = some ⟨f₀.key, 1, x⟩ ∧
      (func.start fr f₀).1.baseGroup = fr.baseGroup + x :=
    fun ha hfits => groupHold_start hf₀ hcnt (hiff.mp ha) hfits
  generalize func.start fr f₀ = r at *
  generalize (fr.startFilter k.addr (resolveAction km fr.state a) func).1 = fr' at *
  have hbase : fr'.baseGroup = r.1.baseGroup := by rw [heq]; rfl
  have hother : ∀ j, j ≠ i → fr'.groupHolds j = fr.groupHolds j := by
    intro j hj
    rw [groupHolds, hslots j, if_neg hj]
    rfl
  have hself : fr'.groupHolds i = r.2.groupHold := by
    rw [groupHolds, hslots i, if_pos rfl, bind_busy groupHold_of_free]
  have hnone : fr.groupHolds i = none := by
    rw [groupHolds, hfree]
    rfl
  rw [countP_append, countP_singleton] at hone
  by_cases ha : a.shiftsGroup = true
  · rw [if_pos ha] at hone
    obtain ⟨hbase₁, hsame⟩ := h.same (by omega)
    obtain ⟨x, hhold, hshift⟩ := hgroup ha (by
      rw [haction, applyGroupDelta_resolveAction, hbase₁]
      exact hfits ha)
    refine ⟨?_, ?_, fun j g hg => ?_, fun j j' g g' hj hg hj' hg' => ?_⟩
    · rw [hbase, hshift, htotal, XkbFilter.shift, hhold, h.balance]
      rfl
    · rw [countP_append, countP_singleton, if_pos ha]
      exact fun hzero => absurd hzero (by omega)
    · by_cases hj : j = i
      · subst hj
        obtain rfl := Option.some.inj ((hself.trans hhold).symm.trans hg)
        exact .inr ⟨(hsame j).symm.trans hnone, hkey, rfl⟩
      · exact .inl ((hsame j).symm.trans ((hother j hj).symm.trans hg))
    · have hnew : ∀ j g, fr₁.groupHolds j = none → fr'.groupHolds j = some g → j = i := by
        intro j g hj hg
        by_contra hji
        rw [hother j hji, hsame j, hj] at hg
        cases hg
      rw [hnew j g hj hg, hnew j' g' hj' hg']
  · -- the other actions leave the shifts alone
    have hfunc' : func ≠ .groupSet ∧ func ≠ .groupLatch := not_or.mp (mt hiff.mpr ha)
    have hrnone : r.2.groupHold = none := groupHold_of_ne
      (hwrites.func_ne hfunc'.1 (.inl rfl)) (hwrites.func_ne hfunc'.2 (.inr (.inl rfl)))
    have hbase' : fr'.baseGroup = fr.baseGroup := hbase.trans (hwrites.baseGroup hfunc'.1 hfunc'.2)
    have hholds : ∀ j, fr'.groupHolds j = fr.groupHolds j := by
      intro j
      by_cases hj : j = i
      · rw [hj, hself, hnone, hrnone]
      · exact hother j hj
    refine ⟨?_, ?_, fun j g hg => ?_, fun j j' g g' hj hg hj' hg' => ?_⟩
    · rw [hbase', h.balance]
      exact (totalShift_congr hholds).symm
    · rw [countP_append, countP_singleton, if_neg ha, add_zero]
      exact fun hzero =>
        ⟨hbase'.trans (h.same hzero).1, fun j => (hholds j).trans ((h.same hzero).2 j)⟩
    · exact h.origin j g ((hholds j).symm.trans hg)
    · exact h.once j j' g g' hj ((hholds j).symm.trans hg) hj' ((hholds j').symm.trans hg')

/-- The shifts at the end of the loop over the filters. -/
theorem ShiftInv.groupHolds_end {i : ℕ} {c : Bool} (h : ShiftInv k dir fr₀ i fr c)
    (hend : i = 3 * fr₀.state.filters.length ∨ fr.state.filters.length ≤ i) (j : ℕ) :
    fr.groupHolds j = (fr₀.groupHolds j).filter fun g => !(dir == .up && g.key == k.addr) := by
  rcases lt_or_ge j i with hj | hj
  · exact h.done j hj
  · have hsame := h.groupHolds_ahead hj
    have hnone : fr₀.groupHolds j = none := bind_slot_past hend hj hsame
    rw [hsame, hnone]
    rfl

/-- **The filters and the actions of a key event** keep the balance. -/
theorem shiftTurn_xkbFilterApplyAll (hok : SlotsOk fr₀) (hk : k.addr.canHold = true)
    (hbalance : fr₀.baseGroup = fr₀.totalShift) (hready : ShiftsReady k dir fr₀)
    (hactions : dir ≠ .up →
      (xkbKeyGetActions fr₀.state.toXkbState k.key).countP shiftsGroup ≤ 1 ∧
      ∀ a ∈ xkbKeyGetActions fr₀.state.toXkbState k.key, a.shiftsGroup = true →
        Bitfield.Fits 30 (applyGroupDelta a.group fr₀.baseGroup - fr₀.baseGroup)) :
    ShiftTurn k dir fr₀ (xkbFilterApplyAll km fr₀ k dir) := by
  obtain ⟨i, fr, c, hinv, hend, hcase⟩ := applyAllWith_cases km (P := ShiftInv k dir fr₀)
    (fun _ _ _ _ h hf hfunc => h.skip hf hfunc)
    (fun _ _ _ _ _ h hf hfunc => h.call km hk hready hf hfunc) (.init hok hbalance)
  have hholds := hinv.groupHolds_end hend
  rcases hcase with ⟨-, heq⟩ | ⟨rfl, hdir, heq⟩
  · -- nothing starts: what is left was there before
    rw [xkbFilterApplyAll, heq]
    refine ⟨hinv.balance, fun j g hg => .inl ?_, fun j j' g g' hj hg => ?_⟩
    · rw [hholds j, filter_eq_some_iff] at hg
      refine ⟨hg.1, fun hup hkey => ?_⟩
      simp [hup, hkey] at hg
    · rw [hholds j, hj] at hg
      cases hg
  · have hsame : ∀ j, fr.groupHolds j = fr₀.groupHolds j := by
      intro j
      rw [hholds j]
      cases fr₀.groupHolds j with
      | none => rfl
      | some g => rw [filter_some, if_pos (by simp [hdir])]
    have hbase : fr.baseGroup = fr₀.baseGroup := hinv.base.resolve_right fun h => hdir h.1
    have hnokey : ∀ j g, fr₀.groupHolds j = some g → g.key ≠ k.addr := by
      intro j g hg hkey
      cases dir with
      | up => exact hdir rfl
      | down => exact hready.down rfl j g hg hkey
      | repeated =>
        -- a repeat of a key with a shift is consumed
        rcases lt_or_ge j i with hj | hj
        · exact absurd (hinv.consumed rfl j hj g hg hkey) Bool.false_ne_true
        · have hnone : fr₀.groupHolds j = none := bind_slot_past hend hj (hsame j)
          cases hnone.symm.trans hg
    obtain ⟨hone, hfits⟩ := hactions hdir
    rw [← hinv.footprint.xkbKeyGetActions] at hone hfits
    have hrun : ActionInv k fr (xkbKeyGetActions fr.state.toXkbState k.key)
        ((xkbKeyGetActions fr.state.toXkbState k.key).foldl (startAction km k) fr) := by
      refine actions_rec km (Q := ActionInv k fr) ?_ ?_ (.init hinv.balance)
      · intro pre fr' a hpre h hfunc
        have ha : a.shiftsGroup = false := by
          rw [shiftsGroup_eq, hfunc]
          rfl
        have hcount : (pre ++ [a]).countP shiftsGroup = pre.countP shiftsGroup := by
          rw [countP_append, countP_singleton, if_neg (by simp [ha]), add_zero]
        exact ⟨h.balance, fun hzero => h.same (hcount ▸ hzero), h.origin, h.once⟩
      · intro pre fr' a func hpre h hfunc
        refine h.start ((hpre.sublist.countP_le).trans hone) (fun ha => ?_) hfunc
        rw [hbase]
        exact hfits a (hpre.subset (by simp)) ha
    rw [xkbFilterApplyAll, heq]
    rw [hinv.footprint.xkbKeyGetActions] at hrun ⊢
    refine ⟨hrun.balance, fun j g hg => ?_, fun j j' g g' hj hg hj' hg' => ?_⟩
    · rcases hrun.origin j g hg with hold | ⟨hnone, hkey, hcount⟩
      · exact .inl ⟨(hsame j).symm.trans hold, fun hup => absurd hup hdir⟩
      · refine .inr ⟨hdir, (hsame j).symm.trans hnone, hkey, hcount, hnokey, ?_⟩
        by_contra hnot
        push Not at hnot
        have hzero : (xkbKeyGetActions fr₀.state.toXkbState k.key).countP shiftsGroup = 0 :=
          countP_eq_zero.mpr hnot
        rw [(hrun.same hzero).2 j, hnone] at hg
        cases hg
    · exact hrun.once j j' g g' ((hsame j).trans hj) hg ((hsame j').trans hj') hg'

end Actions

/-! ### Runs -/

/-- The shifts of the filters of a server state. -/
def XkbServerState.groupHolds (s : XkbServerState) : ℕ → Option GroupHold :=
  (⟨s, none⟩ : Frame).groupHolds

/-- **The group is restored**: a released key finds the group that it left, and a key that is
pressed or repeats has one group action at most. The shifts fit the fields of the latches,
and only keys that are down repeat – or the level has no group action. -/
def restoresGroup (km : XkbKeymap) (s : XkbServerState) (es : List (ℕ × KeyDirection))
    (e : ℕ × KeyDirection) : Bool :=
  match eventKey km e.1 e.2 with
  | none => true
  | some k =>
    let base := s.components.baseGroup
    let shifts := (xkbKeyGetActions s.toXkbState k.key).filter XkbAction.shiftsGroup
    match e.2 with
    | .up => decide (Bitfield.Fits 30 (0#32 - base)) && s.filters.all fun f =>
        f.key != k.addr || f.groupHold.isNone ||
          (decide (Bitfield.Fits 30 (0#32 - (base - f.shift))) &&
            (f.func != some .groupSet || applyGroupDelta f.action.group f.priv == base))
    | dir => decide (shifts.length ≤ 1) &&
        shifts.all (fun a => decide (Bitfield.Fits 30 (applyGroupDelta a.group base - base))) &&
        (dir != .repeated || decide (0 < depth es e.1) || shifts.isEmpty)

/-- **The balance**: the depressed group is the sum of the shifts, and each belongs to a key
of its own that is down. -/
structure GroupBalance (depth : KeyAddr → ℤ) (s : XkbServerState) : Prop where
  balance : s.components.baseGroup = (⟨s, none⟩ : Frame).totalShift
  count : ∀ i g, s.groupHolds i = some g → g.count = 1
  down : ∀ i g, s.groupHolds i = some g → 1 ≤ depth g.key
  once : ∀ i j g g', s.groupHolds i = some g → s.groupHolds j = some g' → g.key = g'.key → i = j

theorem groupBalance_new (m : LegacyMode) :
    GroupBalance (keyDepth km []) (legacyStateNew km m) := by
  refine ⟨?_, nofun, nofun, nofun⟩
  rw [totalShift_eq_zero fun i => rfl]
  rfl

/-- What the events of a run find, in an alternating history. -/
theorem GroupBalance.ready (h : GroupBalance (keyDepth km es) s) (hk : eventKey km kc dir = some k)
    (halt : Alternating (es ++ [(kc, dir)])) (hrestores : restoresGroup km s es (kc, dir) = true) :
    ShiftsReady k dir ⟨s, none⟩ := by
  have hdepth : keyDepth km es k.addr = depth es kc := keyDepth_of_keyOf (keyOf_of_eventKey hk)
  have hfilter : dir = .up → ∀ i f, (⟨s, none⟩ : Frame).slot i = some f → f.key = k.addr →
      f.groupHold ≠ none → Bitfield.Fits 30 (0#32 - (s.components.baseGroup - f.shift)) ∧
        (f.func = some .groupSet →
          applyGroupDelta f.action.group f.priv = s.components.baseGroup) := by
    rintro rfl i f hf hkey hhold
    simp only [restoresGroup, hk, Bool.and_eq_true, List.all_eq_true] at hrestores
    have hf' := hrestores.2 f (Slots.mem_of_busyAt hf)
    simp only [Bool.or_eq_true, bne_iff_ne, ne_eq, hkey, not_true_eq_false, false_or,
      isNone_iff_eq_none, hhold, Bool.and_eq_true, decide_eq_true_eq, beq_iff_eq] at hf'
    exact ⟨hf'.1, fun hset => hf'.2.resolve_left (not_not.mpr hset)⟩
  refine ⟨?_, h.count, ?_, ?_, ?_, ?_⟩
  · exact fun i j g g' hg hg' hkey hkey' => h.once i j g g' hg hg' (hkey.trans hkey'.symm)
  · rintro rfl i g hg hkey
    have hle := h.down i g hg
    rw [hkey, hdepth, halt.depth_of_last.1 rfl] at hle
    omega
  · intro hup i f hf hset hkey
    exact (hfilter hup i f hf hkey (by simp [XkbFilter.groupHold, hset])).2 hset
  · rintro rfl
    simp only [restoresGroup, hk, Bool.and_eq_true, decide_eq_true_eq] at hrestores
    exact hrestores.1
  · intro hup i g hg hkey
    obtain ⟨f, hf, hhold⟩ := bind_eq_some_iff.mp hg
    have hfits := (hfilter hup i f hf ((groupHold_key hhold).symm.trans hkey) (by simp [hhold])).1
    rwa [XkbFilter.shift, hhold] at hfits

/-- What the actions of the level are, when the key is pressed or repeats. -/
theorem restoresGroup_actions (hk : eventKey km kc dir = some k)
    (hrestores : restoresGroup km s es (kc, dir) = true) (hdir : dir ≠ .up) :
    ((xkbKeyGetActions s.toXkbState k.key).countP shiftsGroup ≤ 1 ∧
      ∀ a ∈ xkbKeyGetActions s.toXkbState k.key, a.shiftsGroup = true →
        Bitfield.Fits 30 (applyGroupDelta a.group s.components.baseGroup -
          s.components.baseGroup)) ∧
      (dir = .repeated → (∃ a ∈ xkbKeyGetActions s.toXkbState k.key, a.shiftsGroup = true) →
        1 ≤ depth es kc) := by
  have hcond : (decide (((xkbKeyGetActions s.toXkbState k.key).filter
        shiftsGroup).length ≤ 1) &&
      ((xkbKeyGetActions s.toXkbState k.key).filter shiftsGroup).all
        (fun a => decide (Bitfield.Fits 30 (applyGroupDelta a.group s.components.baseGroup -
          s.components.baseGroup))) &&
      (dir != .repeated || decide (0 < depth es kc) ||
        ((xkbKeyGetActions s.toXkbState k.key).filter shiftsGroup).isEmpty)) = true := by
    cases dir with
    | up => exact absurd rfl hdir
    | down | repeated => simpa only [restoresGroup, hk] using hrestores
  simp only [Bool.and_eq_true, decide_eq_true_eq, List.all_eq_true, mem_filter, and_imp] at hcond
  obtain ⟨⟨hlen, hfits⟩, hdown⟩ := hcond
  refine ⟨⟨by rwa [countP_eq_length_filter], hfits⟩, ?_⟩
  rintro rfl ⟨a, ha, hshift⟩
  have hne : ((xkbKeyGetActions s.toXkbState k.key).filter shiftsGroup).isEmpty =
      false := by
    rw [isEmpty_eq_false_iff]
    exact ne_nil_of_mem (mem_filter.mpr ⟨ha, hshift⟩)
  rw [hne] at hdown
  simp only [bne_self_eq_false, Bool.false_or, Bool.or_false, decide_eq_true_eq] at hdown
  omega

/-- **A handled key event keeps the balance**, in an alternating history. -/
theorem GroupBalance.step (h : GroupBalance (keyDepth km es) s) (hok : FiltersOk s)
    (hk : eventKey km kc dir = some k) (halt : Alternating (es ++ [(kc, dir)]))
    (hrestores : restoresGroup km s es (kc, dir) = true) :
    GroupBalance (keyDepth km (es ++ [(kc, dir)])) (handleKey km ⟨s, none⟩ k dir).state := by
  have hkey := keyOf_of_eventKey hk
  have hdepth : keyDepth km es k.addr = depth es kc := keyDepth_of_keyOf hkey
  have hself : keyDepth km (es ++ [(kc, dir)]) k.addr = dir.move.depth (keyDepth km es k.addr) :=
    keyDepth_append_self hkey
  have hother : ∀ addr, addr ≠ k.addr →
      keyDepth km (es ++ [(kc, dir)]) addr = keyDepth km es addr :=
    fun addr hne => keyDepth_append_of_ne hkey hne
  have hok₀ : SlotsOk (⟨s, none⟩ : Frame).resetMasks := hok
  have hready := h.ready hk halt hrestores
  have hturn : ShiftTurn k dir (⟨s, none⟩ : Frame).resetMasks
      (xkbFilterApplyAll km (⟨s, none⟩ : Frame).resetMasks k dir) :=
    shiftTurn_xkbFilterApplyAll hok₀ (canHold_of_keyOf hkey) h.balance
      ⟨hready.once, hready.count, hready.down, hready.restore, hready.fits, hready.fits_ended⟩
      fun hdir => (restoresGroup_actions hk hrestores hdir).1
  rw [handleKey_eq]
  generalize xkbFilterApplyAll km (⟨s, none⟩ : Frame).resetMasks k dir = fr at hturn
  have hholds : ∀ j, (fr.applyMasks km).state.groupHolds j = fr.groupHolds j := by
    intro j
    simp only [XkbServerState.groupHolds, groupHolds, slot, applyMasks,
      updateDerived, mapComponents, updateBaseMods_filters]
  have horigin : ∀ j g, (fr.applyMasks km).state.groupHolds j = some g → _ :=
    fun j g hg => hturn.origin j g ((hholds j).symm.trans hg)
  refine ⟨?_, fun j g hg => ?_, fun j g hg => ?_, fun i j g g' hg hg' hgg => ?_⟩
  · have hbase : (fr.applyMasks km).state.components.baseGroup = fr.baseGroup := by
      have hc := congrArg StateComponents.baseGroup (updateBaseMods_components fr.state)
      exact (deriveComponents_baseGroup ..).trans hc
    rw [hbase, hturn.balance]
    exact (totalShift_congr hholds).symm
  · rcases horigin j g hg with ⟨hold, -⟩ | ⟨-, -, -, hcount, -⟩
    · exact h.count j g hold
    · exact hcount
  · rcases horigin j g hg with ⟨hold, hup⟩ | ⟨hdir, -, hgkey, -, -, hlevel⟩
    · have hpos := h.down j g hold
      by_cases hgkey : g.key = k.addr
      · rw [hgkey] at hpos ⊢
        rw [hself]
        cases dir with
        | up => exact absurd hgkey (hup rfl)
        | down => exact Int.le_trans hpos (by simp [KeyDirection.move, Move.depth])
        | repeated => exact hpos
      · rwa [hother g.key hgkey]
    · -- a new shift: its key has just been pressed, or was down
      rw [hgkey, hself, hdepth]
      cases dir with
      | up => exact absurd rfl hdir
      | down =>
        rw [halt.depth_of_last.1 rfl]
        decide
      | repeated => exact (restoresGroup_actions hk hrestores hdir).2 rfl hlevel
  · rcases horigin i g hg with ⟨hold, -⟩ | ⟨-, hnone, hgkey, -, hfresh, -⟩
    · rcases horigin j g' hg' with ⟨hold', -⟩ | ⟨-, -, hgkey', -, hfresh', -⟩
      · exact h.once i j g g' hold hold' hgg
      · exact absurd (hgg.trans hgkey') (hfresh' i g hold)
    · rcases horigin j g' hg' with ⟨hold', -⟩ | ⟨-, hnone', -⟩
      · exact absurd (hgg.symm.trans hgkey) (hfresh j g' hold')
      · exact hturn.once i j g g' hnone ((hholds i).symm.trans hg) hnone'
          ((hholds j).symm.trans hg')

/-- **The balance holds along every alternating run** whose keys find the group that they
left. -/
theorem groupBalance_keyRun (m : LegacyMode) (halt : Alternating es)
    (hrestores : Runs.History (fun pre e => restoresGroup km (keyRun km m pre) pre e = true) es) :
    GroupBalance (keyDepth km es) (keyRun km m es) := by
  refine keyRun_invariant (P := GroupBalance) (groupBalance_new m) fun {pre _ _ _} hpre hk ih => ?_
  exact ih.step (serverReachable_keyRun km m).filtersOk hk (fun es hes => halt es (hes.trans hpre))
    (hrestores pre _ hpre)

/-- **No stuck group**: in every alternating run whose keys find the group that they left,
no group is depressed whenever all keys are released. -/
theorem no_stuck_group (km : XkbKeymap) (m : LegacyMode) {es : List (ℕ × KeyDirection)}
    (halt : Alternating es)
    (hrestores : Runs.History (fun pre e => restoresGroup km (keyRun km m pre) pre e = true) es)
    (hreleased : ∀ kc, depth es kc = 0) : (keyRun km m es).components.baseGroup = 0#32 := by
  have h := groupBalance_keyRun m halt hrestores
  rw [h.balance]
  refine totalShift_eq_zero fun i => ?_
  cases hg : (⟨keyRun km m es, none⟩ : Frame).groupHolds i with
  | none => rfl
  | some g =>
    have hpos := h.down i g hg
    rw [keyDepth_eq_zero hreleased] at hpos
    omega

/-- Two keys that set the next group, and one that latches it. -/
def groupKeymap : XkbKeymap where
  maxKeyCode := 2
  numKeysLow := 3
  keys := [oneLevelKey 0 [nextGroup .groupSet], oneLevelKey 1 [nextGroup .groupSet],
    oneLevelKey 2 [nextGroup .groupLatch]]
  numGroups := 2

/-- Two keys of `Xkbcommon.groupKeymap` that set the group, released in the reverse order,
around a latch that is released while they are down. -/
theorem no_stuck_group_nested :
    (keyRun groupKeymap .mixed [(0, .down), (2, .down), (2, .up), (1, .down), (1, .up),
      (0, .up)]).components.baseGroup = 0#32 := by
  refine no_stuck_group groupKeymap .mixed ?_ ?_ (depth_eq_zero ?_) <;> decide +kernel

/-- Released in the order in which they were pressed, the two keys leave a group depressed. -/
theorem stuck_group :
    Alternating [(0, .down), (1, .down), (0, .up), (1, .up)] ∧
      (∀ kc, depth [(0, .down), (1, .down), (0, .up), (1, .up)] kc = 0) ∧
      (keyRun groupKeymap .mixed
        [(0, .down), (1, .down), (0, .up), (1, .up)]).components.baseGroup = 1#32 := by
  refine ⟨?_, depth_eq_zero ?_, ?_⟩ <;> decide +kernel

end Xkbcommon
