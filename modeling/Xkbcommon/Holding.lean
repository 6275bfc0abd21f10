import Xkbcommon.Invariant
import Xkbcommon.Lib.Holds

/-!
# What the filters hold down

The filters of the modifier actions hold modifiers down for a key. For one modifier, the
filter array is a table of holds (`Holds.Table`), and this file shows that a key event is
a turn of that table (`Holds.Turn`), with `set_mods` as the report that a hold started
and `clear_mods` as the report that one ended:
`Xkbcommon.holdTurn_xkbFilterApplyAll`.

The report of an end can be wrong. The release of a key whose latch is pending already
adds the modifiers of the latch to `clear_mods` although the latch no longer holds them
(`Xkbcommon.XkbFilter.unlatches`).
-/

namespace Xkbcommon

open Masks Holds FilterFunc Hold KeyDirection XkbFilter

variable {step : FilterStep} {actions : List XkbAction}

/-- The modifiers that a filter holds down. A pending latch holds nothing. -/
def XkbFilter.heldMods (f : XkbFilter) : BitVec 32 :=
  match f.func with
  | some .modSet => f.priv
  | some .modLock => f.action.mods.mods.mask
  | some .modLatch => if f.priv = latchPending then 0#32 else f.action.mods.mods.mask
  | _ => 0#32

/-- The hold of a filter on one modifier. -/
def XkbFilter.hold (b : Fin 32) (f : XkbFilter) : Option (Hold KeyAddr) :=
  if f.heldMods.getLsbD b then some ⟨f.key, f.refcnt, f.func == some .modLatch⟩ else none

/-- The table of the holds on one modifier. -/
def Frame.holds (fr : Frame) (b : Fin 32) : Table KeyAddr := fun i =>
  (fr.slot i).bind (XkbFilter.hold b)

/-- The direction of a key event as an event of a table of holds. -/
def KeyDirection.move : KeyDirection → Move
  | .up => .release
  | .down => .press
  | .repeated => .rep

theorem KeyDirection.move_injective : Function.Injective move := by
  intro dir dir' h
  cases dir <;> cases dir' <;> first | rfl | cases h

/-- The modifiers that the release of a key clears although they are not held: those of a
pending latch of the key. -/
def XkbFilter.unlatches (k : KeyRef) (f : XkbFilter) : BitVec 32 :=
  if f.func = some .modLatch ∧ f.priv = latchPending ∧ f.key = k.addr ∧
      anyBit f.action.mods.flags actionLatchOnPress = false then f.action.mods.mods.mask
  else 0#32

/-- The modifiers of an action, if it is a modifier action. -/
def XkbAction.modMask (a : XkbAction) : BitVec 32 :=
  match a.type with
  | .modSet | .modLatch | .modLock => a.mods.mods.mask
  | _ => 0#32

/-- The modifiers of the actions of a level. -/
def levelMods (actions : List XkbAction) : BitVec 32 :=
  actions.foldr (fun a mods => a.modMask ||| mods) 0#32

theorem sub_levelMods {a : XkbAction} (ha : a ∈ actions) : Sub a.modMask (levelMods actions) := by
  induction ha with
  | head actions => exact sub_or_left _ _
  | tail a' _ ih => exact ih.trans (sub_or_right _ _)

/-! ### One filter -/

/-- Whether the event at hand sets a modifier. -/
def Frame.sets (fr : Frame) (b : Fin 32) : Bool := fr.state.setMods.getLsbD b

/-- Whether the event at hand clears a modifier. -/
def Frame.clears (fr : Frame) (b : Fin 32) : Bool := fr.state.clearMods.getLsbD b

variable (fr : Frame) (g : StateComponents → StateComponents) (mask : BitVec 32) (b : Fin 32)

@[simp] theorem mapComponents_sets : (fr.mapComponents g).sets b = fr.sets b := rfl

@[simp] theorem mapComponents_clears : (fr.mapComponents g).clears b = fr.clears b := rfl

@[simp] theorem addSetMods_sets :
    (fr.addSetMods mask).sets b = (fr.sets b || mask.getLsbD b) := BitVec.getLsbD_or

@[simp] theorem addSetMods_clears : (fr.addSetMods mask).clears b = fr.clears b := rfl

@[simp] theorem addClearMods_sets : (fr.addClearMods mask).sets b = fr.sets b := rfl

@[simp] theorem addClearMods_clears :
    (fr.addClearMods mask).clears b = (fr.clears b || mask.getLsbD b) := BitVec.getLsbD_or

/-- **What a filter call does to one modifier.** -/
inductive HoldStep (b : Fin 32) (k : KeyRef) (dir : KeyDirection) (fr : Frame) (f : XkbFilter)
    (step : FilterStep) : Prop
  /-- The filter holds the modifier, and the event counts for it. -/
  | kept (h : Hold KeyAddr) : f.hold b = some h →
      step.filter.hold b = h.next k.addr dir.move → step.frame.sets b = fr.sets b →
      step.frame.clears b = (fr.clears b || (h.next k.addr dir.move).isNone) →
      (h.key = k.addr → dir = .repeated → step.result = .consume) → HoldStep b k dir fr f step
  /-- A pending latch turns into a lock or a set of the pressed key. -/
  | promoted : f.hold b = none → step.filter.hold b = some ⟨k.addr, 1, false⟩ → dir = .down →
      step.frame.sets b = true → step.frame.clears b = fr.clears b →
      (levelMods (xkbKeyGetActions fr.state.toXkbState k.key)).getLsbD b = true →
      HoldStep b k dir fr f step
  /-- The filter does not hold the modifier, but may clear it. -/
  | idle : f.hold b = none → step.filter.hold b = none → step.frame.sets b = fr.sets b →
      (step.frame.clears b = fr.clears b ∨
        step.frame.clears b = true ∧ dir = .up ∧ (f.unlatches k).getLsbD b = true) →
      HoldStep b k dir fr f step

section Calls

variable {b : Fin 32} {k : KeyRef} {dir : KeyDirection} {fr : Frame} {f : XkbFilter}
  {h : Hold KeyAddr} {r : Frame × XkbFilter} {func : FilterFunc}

theorem hold_of_not (h : f.heldMods.getLsbD b = false) : f.hold b = none :=
  if_neg (by rw [h]; exact Bool.false_ne_true)

theorem hold_of_zero (h : f.heldMods = 0#32) : f.hold b = none :=
  hold_of_not (by rw [h]; exact BitVec.getLsbD_zero)

theorem hold_of_counted (h : f.heldMods.getLsbD b = true) (hfunc : f.func ≠ some .modLatch) :
    f.hold b = some ⟨f.key, f.refcnt, false⟩ := by
  rw [hold, if_pos h]
  simp [hfunc]

theorem eq_of_hold (hf : f.hold b = some h) : h = ⟨f.key, f.refcnt, f.func == some .modLatch⟩ := by
  unfold hold at hf
  split at hf
  · exact (Option.some.inj hf).symm
  · cases hf

theorem hold_key (hf : f.hold b = some h) : h.key = f.key := by
  rw [eq_of_hold hf]

/-- A hold that the event does not end. -/
theorem holdStep_alive {h' : Hold KeyAddr} (hf : f.hold b = some h)
    (hnext : h.next k.addr dir.move = some h') (hhold : step.filter.hold b = some h')
    (hsets : step.frame.sets b = fr.sets b) (hclears : step.frame.clears b = fr.clears b)
    (hresult : h.key = k.addr → dir = .repeated → step.result = .consume) :
    HoldStep b k dir fr f step := by
  refine .kept h hf (hhold.trans hnext.symm) hsets ?_ hresult
  rw [hclears, hnext, Option.isNone_some, Bool.or_false]

/-- A call that changes nothing that is held, for an event that does not count. -/
theorem holdStep_same (hnext : ∀ h, f.hold b = some h → h.next k.addr dir.move = some h)
    (hhold : step.filter.hold b = f.hold b) (hsets : step.frame.sets b = fr.sets b)
    (hclears : step.frame.clears b = fr.clears b)
    (hresult : k.addr = f.key → dir = .repeated → step.result = .consume) :
    HoldStep b k dir fr f step := by
  cases hf : f.hold b with
  | none => exact .idle hf (hhold.trans hf) hsets (.inl hclears)
  | some h =>
    exact holdStep_alive hf (hnext h hf) (hhold.trans hf) hsets hclears fun heq =>
      hresult (heq.symm.trans (hold_key hf))

/-- A call for a key that is not the filter's. -/
theorem holdStep_other (hkey : k.addr ≠ f.key) (hhold : step.filter.hold b = f.hold b)
    (hsets : step.frame.sets b = fr.sets b) (hclears : step.frame.clears b = fr.clears b) :
    HoldStep b k dir fr f step := by
  refine holdStep_same (fun h hf => next_of_ne ?_) hhold hsets hclears fun h => absurd h hkey
  rw [hold_key hf]
  exact Ne.symm hkey

/-- A latch ends with the release of its key. -/
theorem holdStep_latch_up (hkey : k.addr = f.key) (hfunc : f.func = some .modLatch)
    (hmods : step.filter.heldMods = 0#32) (hsets : step.frame.sets b = fr.sets b)
    (hclears : step.frame.clears b = (fr.clears b || f.heldMods.getLsbD b)) :
    HoldStep b k .up fr f step := by
  have hhold : step.filter.hold b = none := hold_of_zero hmods
  by_cases hb : f.heldMods.getLsbD b = true
  · have hf : f.hold b = some ⟨f.key, f.refcnt, true⟩ := by
      rw [hold, if_pos hb, hfunc]
      rfl
    have hnext := next_release_dead (h := ⟨f.key, f.refcnt, true⟩) hkey.symm (.inl rfl)
    refine .kept _ hf (hhold.trans hnext.symm) hsets ?_ fun _ h => absurd h (by decide)
    rw [hclears, move, hnext, hb]
    rfl
  · rw [Bool.not_eq_true] at hb
    exact .idle (hold_of_not hb) hhold hsets (.inl (by rw [hclears, hb, Bool.or_false]))

/-- The filters that count their key. -/
theorem holdStep_counted {ending : XkbFilter → FilterStep} (hkey : k.addr = f.key)
    (hfunc : f.func ≠ some .modLatch)
    (hcount : ∀ r, ({ f with refcnt := r } : XkbFilter).heldMods = f.heldMods)
    (hend : ∀ r, (ending { f with refcnt := r }).filter.heldMods = 0#32 ∧
      (ending { f with refcnt := r }).frame.sets b = fr.sets b ∧
      (ending { f with refcnt := r }).frame.clears b = (fr.clears b || f.heldMods.getLsbD b)) :
    HoldStep b k dir fr f (countedSwitch fr f dir ending) := by
  by_cases hb : f.heldMods.getLsbD b = true
  · have hhold : ∀ r, ({ f with refcnt := r } : XkbFilter).hold b = some ⟨f.key, r, false⟩ :=
      fun r => hold_of_counted (f := { f with refcnt := r }) ((hcount r).symm ▸ hb) hfunc
    cases dir with
    | down =>
      exact holdStep_alive (hhold f.refcnt) (next_press hkey.symm rfl) (hhold _) rfl rfl
        fun _ h => absurd h (by decide)
    | repeated =>
      exact holdStep_alive (hhold f.refcnt) next_rep (hhold _) rfl rfl fun _ _ => rfl
    | up =>
      obtain ⟨hmods, hsets, hclears⟩ := hend (f.refcnt - 1)
      by_cases hr : 0 < f.refcnt - 1
      · have hlive : 1 < f.refcnt := by omega
        rw [countedSwitch, if_pos hr]
        exact holdStep_alive (hhold f.refcnt) (next_release hkey.symm rfl hlive) (hhold _) rfl
          rfl fun _ h => absurd h (by decide)
      · have hnext := next_release_dead (h := ⟨f.key, f.refcnt, false⟩) hkey.symm
          (.inr (show f.refcnt ≤ 1 by omega))
        rw [countedSwitch, if_neg hr]
        refine .kept _ (hhold f.refcnt) ?_ hsets ?_ fun _ h => absurd h (by decide)
        · exact (hold_of_zero hmods).trans hnext.symm
        · rw [hclears, move, hnext, hb]
          rfl
  · rw [Bool.not_eq_true] at hb
    have hhold : ∀ r, ({ f with refcnt := r } : XkbFilter).hold b = none :=
      fun r => hold_of_not ((hcount r).symm ▸ hb)
    cases dir with
    | down | repeated => exact .idle (hhold f.refcnt) (hhold _) rfl (.inl rfl)
    | up =>
      obtain ⟨hmods, hsets, hclears⟩ := hend (f.refcnt - 1)
      rw [countedSwitch]
      split
      · exact .idle (hhold f.refcnt) (hhold _) rfl (.inl rfl)
      · refine .idle (hhold f.refcnt) (hold_of_zero hmods) hsets (.inl ?_)
        rw [hclears, hb, Bool.or_false]

/-- The modifiers that a pending latch is promoted for are those of an action of the
pressed key. -/
theorem sub_levelMods_of_promote {latching : ModAction} {sticky : Bool}
    (h : modLatchVerdict latching sticky actions = .promote) :
    Sub latching.mods.mask (levelMods actions) := by
  suffices ∃ a ∈ actions, a.modMask = latching.mods.mask by
    obtain ⟨a, ha, heq⟩ := this
    rw [← heq]
    exact sub_levelMods ha
  induction actions with
  | nil => exact absurd h (by simp [modLatchVerdict])
  | cons a actions ih =>
    unfold modLatchVerdict at h
    split at h
    · rename_i hmatch
      obtain ⟨htype, hmask⟩ := hmatch
      refine ⟨a, List.mem_cons_self, ?_⟩
      rcases htype with ⟨ht, -⟩ | ⟨ht, -⟩ <;> rw [XkbAction.modMask, ht] <;> exact hmask
    · split at h
      · cases h
      · obtain ⟨a', ha', heq⟩ := ih h
        exact ⟨a', List.mem_cons_of_mem a ha', heq⟩

/-- **What starting a filter does to the masks**: the modifiers that the new filter holds
are added to those to set. -/
structure Started (fr : Frame) (f : XkbFilter) (r : Frame × XkbFilter) : Prop where
  sets : ∀ b, r.1.sets b = (fr.sets b || r.2.heldMods.getLsbD b)
  clears : ∀ b, r.1.clears b = fr.clears b
  sub : Sub r.2.heldMods f.action.mods.mods.mask
  key : r.2.key = f.key
  refcnt : r.2.refcnt = f.refcnt
  func : r.2.func = f.func ∨ r.2.func = none

/-- A filter that starts and holds the modifiers that it reports. -/
theorem Started.of_held (mask : BitVec 32) (hmods : r.2.heldMods = mask)
    (hsets : ∀ b, r.1.sets b = (fr.sets b || mask.getLsbD b))
    (hclears : ∀ b, r.1.clears b = fr.clears b) (hsub : Sub mask f.action.mods.mods.mask)
    (hkey : r.2.key = f.key) (hcnt : r.2.refcnt = f.refcnt)
    (hfunc : r.2.func = f.func ∨ r.2.func = none) : Started fr f r := by
  subst hmods
  exact ⟨hsets, hclears, hsub, hkey, hcnt, hfunc⟩

/-- A filter that starts and holds nothing. -/
theorem Started.of_idle (hmods : r.2.heldMods = 0#32) (hsets : ∀ b, r.1.sets b = fr.sets b)
    (hclears : ∀ b, r.1.clears b = fr.clears b) (hkey : r.2.key = f.key)
    (hcnt : r.2.refcnt = f.refcnt) (hfunc : r.2.func = f.func ∨ r.2.func = none) : Started fr f r :=
  .of_held 0#32 hmods (fun b => by rw [hsets, BitVec.getLsbD_zero, Bool.or_false]) hclears
    (sub_zero_left _) hkey hcnt hfunc

theorem started_start (fr : Frame) (hfunc : f.func = some func) :
    Started fr f (func.start fr f) := by
  cases func with
  | modSet =>
    simp only [start, xkbFilterModSetNew]
    split
    · exact .of_held _ (by rw [heldMods, hfunc]) (fun b => addSetMods_sets _ _ _)
        (fun b => rfl) (sub_and_left (.refl _)) rfl rfl (.inl rfl)
    · exact .of_held _ (by rw [heldMods, hfunc]) (fun b => addSetMods_sets _ _ _)
        (fun b => rfl) (.refl _) rfl rfl (.inl rfl)
  | modLock =>
    simp only [start, xkbFilterModLockNew]
    split
    · refine .of_idle rfl (fun b => ?_) (fun b => ?_) rfl rfl (.inr rfl) <;> dsimp only <;>
        split <;> rfl
    · refine .of_held f.action.mods.mods.mask (by rw [heldMods, hfunc]) (fun b => ?_)
        (fun b => ?_) (.refl _) rfl rfl (.inl rfl) <;> dsimp only
      · split <;> exact addSetMods_sets _ _ _
      · split <;> rfl
  | modLatch =>
    simp only [start, xkbFilterModLatchNew]
    split
    · exact .of_idle rfl (fun b => rfl) (fun b => rfl) rfl rfl (.inr rfl)
    · split
      · refine .of_idle ?_ (fun b => rfl) (fun b => rfl) rfl rfl (.inl rfl)
        rw [heldMods, hfunc]
        exact if_pos rfl
      · refine .of_held _ ?_ (fun b => addSetMods_sets _ _ _) (fun b => rfl) (.refl _) rfl rfl
          (.inl rfl)
        rw [heldMods, hfunc]
        exact if_neg (show latchKeyDown ≠ latchPending by decide)
  | groupSet | groupLatch | groupLock | ctrls | redirectKey =>
    simp only [start, xkbFilterGroupSetNew, xkbFilterGroupLatchNew,
      xkbFilterGroupLockNew, xkbFilterCtrlsNew, xkbFilterRedirectKeyNew]
    (repeat' split) <;>
      exact .of_idle (by simp [heldMods, hfunc]) (fun b => rfl) (fun b => rfl) rfl rfl (by simp)

/-- A pending latch that is promoted holds for the pressed key. -/
theorem holdStep_promote {f₀ : XkbFilter} (hr : Started fr f₀ r) (hidle : f.hold b = none)
    (hfunc : f₀.func ≠ some .modLatch) (hcnt : f₀.refcnt = 1)
    (hlevel : Sub f₀.action.mods.mods.mask (levelMods (xkbKeyGetActions fr.state.toXkbState k.key)))
    (g : StateComponents → StateComponents) :
    HoldStep b k .down fr f ⟨r.1.mapComponents g, { r.2 with key := k.addr }, .consume⟩ := by
  by_cases hb : r.2.heldMods.getLsbD b = true
  · have hfunc' : r.2.func ≠ some .modLatch := by
      rcases hr.func with h | h <;> rw [h]
      · exact hfunc
      · simp
    refine .promoted hidle ?_ rfl ?_ (hr.clears b) (hlevel _ (hr.sub _ hb))
    · rw [hold_of_counted (f := { r.2 with key := k.addr }) hb hfunc', hr.refcnt, hcnt]
    · rw [mapComponents_sets, hr.sets, hb, Bool.or_true]
  · rw [Bool.not_eq_true] at hb
    refine .idle hidle (hold_of_not hb) ?_ (.inl (hr.clears b))
    rw [mapComponents_sets, hr.sets, hb, Bool.or_false]

theorem holdStep_modLatch (hf : SlotOk f) (hfunc : f.func = some .modLatch) :
    HoldStep b k dir fr f (xkbFilterModLatchFunc fr f k dir) := by
  have hlatch : ∀ h, f.hold b = some h → h.latch = true := by
    intro h hh
    rw [eq_of_hold hh, hfunc]
    rfl
  have hheld : ∀ p, p ≠ latchPending →
      ({ f with priv := p } : XkbFilter).heldMods = f.action.mods.mods.mask := fun p hp => by
    rw [heldMods, hfunc]
    exact if_neg hp
  have hpending : f.priv = latchPending → f.heldMods = 0#32 := fun hp => by
    rw [heldMods, hfunc]
    exact if_pos hp
  have hdown : ∀ h, f.hold b = some h → h.next k.addr .press = some h := fun h hh =>
    next_press_latch (hlatch h hh)
  unfold xkbFilterModLatchFunc
  cases dir with
  | repeated =>
    exact holdStep_same (fun h _ => next_rep) rfl rfl rfl fun hk _ => if_pos hk
  | down =>
    dsimp only
    split
    · rename_i hpriv
      refine holdStep_same hdown ?_ rfl rfl fun _ h => absurd h (by decide)
      split
      · have hmods := (hheld noLatch (by decide)).trans (hheld f.priv (by rw [hpriv]; decide)).symm
        show hold b { f with priv := noLatch } = _
        rw [hold, hmods]
        rfl
      · rfl
    · split
      · rename_i hpriv
        have hidle : f.hold b = none := hold_of_zero (hpending hpriv)
        split
        · rename_i hverdict
          have hlevel := sub_levelMods_of_promote hverdict
          have hcnt := hf.modLatch_refcnt hfunc
          unfold promoteModLatch
          split
          · have hr := started_start fr
              (f := { f with action.type := .modLock, func := some .modLock }) rfl
            exact holdStep_promote hr hidle (by simp) hcnt hlevel _
          · have hr := started_start fr
              (f := { f with action.type := .modSet, func := some .modSet }) rfl
            exact holdStep_promote hr hidle (by simp) hcnt hlevel _
        · exact .idle hidle (hold_of_zero rfl) rfl (.inl rfl)
        · exact .idle hidle hidle rfl (.inl rfl)
      · exact holdStep_same hdown rfl rfl rfl fun _ h => absurd h (by decide)
  | up =>
    dsimp only
    split
    · rename_i hkey
      exact holdStep_other hkey rfl rfl rfl
    · rename_i hkey
      rw [not_not] at hkey
      by_cases hpriv : f.priv = latchPending
      · have hidle : f.hold b = none := hold_of_zero (hpending hpriv)
        split
        · exact .idle hidle (hold_of_zero rfl) rfl (.inl rfl)
        · rw [if_neg (by rw [hpriv]; decide)]
          split
          · rename_i hpress
            -- the key is released again while its latch is pending
            refine .idle hidle ?_ rfl ?_
            · rw [← hpriv]
              exact hidle
            · have hunlatches : f.unlatches k = f.action.mods.mods.mask :=
                if_pos ⟨hfunc, hpriv, hkey.symm, by simpa using hpress⟩
              rw [hunlatches, mapComponents_clears, addClearMods_clears]
              cases f.action.mods.mods.mask.getLsbD b with
              | false => exact .inl (Bool.or_false _)
              | true => exact .inr ⟨Bool.or_true _, rfl, rfl⟩
          · exact .idle hidle hidle rfl (.inl rfl)
      · have hmask : f.heldMods = f.action.mods.mods.mask := hheld f.priv hpriv
        split
        · refine holdStep_latch_up hkey hfunc rfl rfl ?_
          rw [hmask, mapComponents_clears, addClearMods_clears]
        · split
          · refine holdStep_latch_up hkey hfunc rfl rfl ?_
            rw [hmask, addClearMods_clears]
          · split
            · refine holdStep_latch_up hkey hfunc ?_ rfl ?_
              · rw [heldMods, hfunc]
                exact if_pos rfl
              · rw [hmask, mapComponents_clears, addClearMods_clears]
            · rename_i hpress
              exact absurd (hf.modLatch_onPress hfunc (by simpa using hpress)) hpriv

/-- **What a filter call does to one modifier**, unless it clears the latches. -/
theorem holdStep_call (hf : SlotOk f) (hfunc : f.func = some func) :
    HoldStep b k dir fr f (func.call id fr f k dir) := by
  have hidle : ∀ step : FilterStep, f.heldMods = 0#32 → step.filter.heldMods = 0#32 →
      step.frame.sets b = fr.sets b → step.frame.clears b = fr.clears b →
      HoldStep b k dir fr f step := by
    intro step hmods hmods' hsets hclears
    exact .idle (hold_of_zero hmods) (hold_of_zero hmods') hsets (.inl hclears)
  cases func with
  | modLatch => exact holdStep_modLatch hf hfunc
  | modSet | modLock =>
    simp only [call, xkbFilterModSetFunc, xkbFilterModLockFunc]
    split
    · rename_i hkey
      refine holdStep_other hkey ?_ rfl rfl
      simp only [hold, heldMods, hfunc]
    · rename_i hkey
      refine holdStep_counted (not_not.mp hkey) (by simp [hfunc]) (fun r => ?_) fun r => ?_
      · simp only [heldMods, hfunc]
      · refine ⟨rfl, ?_, ?_⟩
        · dsimp only
          split <;> rfl
        · rw [heldMods, hfunc]
          dsimp only
          split <;> exact addClearMods_clears _ _ _
  | groupSet | groupLatch | groupLock | ctrls | redirectKey =>
    simp only [call, xkbFilterGroupSetFunc, xkbFilterGroupLatchFunc,
      xkbFilterGroupLockFunc, xkbFilterCtrlsFunc, xkbFilterRedirectKeyFunc, xkbFilterGroupLockNew,
      countedSwitch, id_eq, ite_self]
    refine hidle _ (by rw [heldMods, hfunc]) ?_ ?_ ?_ <;> (repeat' split) <;>
      first | rfl | simp [heldMods, hfunc]

/-- The same for every call: clearing the latches leaves the masks of the event alone. -/
theorem holdStep_call_clearAll (km : XkbKeymap) (hok : SlotsOk fr) (hf : SlotOk f)
    (hfunc : f.func = some func) :
    HoldStep b k dir fr f (func.call (clearAllLatchesAndLocks km) fr f k dir) := by
  rcases call_cases (clearAllLatchesAndLocks km) func fr f k dir with
    heq | ⟨rfl, -, controls, -, -, heq⟩ <;> rw [heq]
  · exact holdStep_call hf hfunc
  · have hok' : SlotsOk (fr.setControls controls) := hok.mapComponents _
    have hmasks := (clearAll_effect km hok').2.1
    refine .idle (hold_of_zero ?_) (hold_of_zero rfl) ?_ (.inl ?_)
    · rw [heldMods, hfunc]
    · exact congrArg (·.getLsbD b) hmasks.setMods
    · exact congrArg (·.getLsbD b) hmasks.clearMods

end Calls

/-! ### Quiet changes -/

theorem QuietSlot.hold {f f' : XkbFilter} (h : QuietSlot f f') (b : Fin 32) :
    f'.hold b = f.hold b := by
  have hmods : f'.heldMods = f.heldMods := by
    unfold XkbFilter.heldMods
    rw [h.func, h.mods]
    rcases h.priv with hp | ⟨hm, hd, hn⟩ | ⟨hg, -, -⟩
    · rw [hp]
    · rw [hm, hd, hn]
      rfl
    · rw [hg]
  rw [XkbFilter.hold, XkbFilter.hold, hmods, h.key, h.func, h.refcnt]

theorem Pending.hold {f : XkbFilter} (h : Pending f) (b : Fin 32) : f.hold b = none := by
  refine hold_of_zero ?_
  rcases h with ⟨hfunc, hpriv⟩ | ⟨hfunc, -⟩ <;> rw [heldMods, hfunc]
  exact if_pos hpriv

/-- A quiet change of a slot leaves its hold alone. -/
theorem QuietAt.hold {o o' : Option XkbFilter} (h : QuietAt o o') (b : Fin 32) :
    o'.bind (hold b) = o.bind (hold b) := h.bind (fun _ _ hq => hq.hold b) fun _ hp => hp.hold b

end Xkbcommon
