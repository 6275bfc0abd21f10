import Xkbcommon.Derived

/-!
# Rules for the filter loops

`xkb_filter_apply_all` is a loop over the filter slots followed by a loop over the
actions of the key, and the out-of-band updates run it on faked keys. The rules of
this file reduce a property of these functions to one of a single filter call, a
single start and a single latch tap, so that no later proof does an induction over the
slots again:

* `Xkbcommon.actions_rec` – the loop over the actions;
* `Xkbcommon.runFilters_rec` – the loop over the slots, with an invariant that may
  depend on the slot reached;
* `Xkbcommon.applyAllWith_cases`, `Xkbcommon.applyAllWith_rec` – the two loops together;
* `Xkbcommon.applyAllWith_invariant`, `Xkbcommon.latchedLocked_invariant` – an
  invariant of the whole functions.

Their first use is `Xkbcommon.Footprint`: what no filter ever writes. In particular the
effective modifiers and group are constant while the filters run, and with them the
actions of a key.
-/

namespace Xkbcommon

open Masks List

variable {P : ℕ → Frame → Bool → Prop} {clearAll : Frame → Frame} {dir : KeyDirection} {fr : Frame}

/-! ### The loop over the actions -/

variable {k : KeyRef} (km : XkbKeymap) {s : XkbServerState} {a : XkbAction}

/-- Sticky keys turn sets into latches; nothing else changes the type of an action. -/
theorem resolveAction_type :
    (resolveAction km s a).type = a.type ∨
      (a.type = .modSet ∧ (resolveAction km s a).type = .modLatch) ∨
      (a.type = .groupSet ∧ (resolveAction km s a).type = .groupLatch) := by
  unfold resolveAction
  by_cases hs : anyBit s.components.controls controlStickyKeys = true
  · cases ha : a.type <;> simp [hs, ha]
  · cases ha : a.type <;> simp [hs, ha]

/-- Resolving does not change the modifiers of an action. -/
theorem resolveAction_mods : (resolveAction km s a).mods.mods = a.mods.mods := by
  unfold resolveAction
  dsimp only
  (repeat' split) <;> rfl

/-- Resolving does not change whether an action has a handler. -/
theorem startAction_eq :
    startAction km k fr a = match (resolveAction km fr.state a).type.filterFunc with
      | none => fr
      | some func => (fr.startFilter k.addr (resolveAction km fr.state a) func).1 := by
  unfold startAction
  split
  · rename_i hnone
    rcases resolveAction_type km with h | ⟨h, -⟩ | ⟨h, -⟩
    · rw [h, hnone]
    · rw [h] at hnone
      exact absurd hnone (by simp [XkbActionType.filterFunc])
    · rw [h] at hnone
      exact absurd hnone (by simp [XkbActionType.filterFunc])
  · rfl

/-- **The rule of the loop over the actions**, with an invariant that may depend on the
actions before the one at hand. -/
theorem actions_rec {l : List XkbAction} {Q : List XkbAction → Frame → Prop}
    (skip : ∀ (pre : List XkbAction) (fr : Frame) (a : XkbAction), pre ++ [a] <+: l → Q pre fr →
      (resolveAction km fr.state a).type.filterFunc = none → Q (pre ++ [a]) fr)
    (start : ∀ (pre : List XkbAction) (fr : Frame) (a : XkbAction) (func : FilterFunc),
      pre ++ [a] <+: l → Q pre fr → (resolveAction km fr.state a).type.filterFunc = some func →
      Q (pre ++ [a]) (fr.startFilter k.addr (resolveAction km fr.state a) func).1)
    (h : Q [] fr) : Q l (l.foldl (startAction km k) fr) := by
  induction l using reverseRecOn with
  | nil => exact h
  | append_singleton l a ih =>
    have ih := ih (fun pre fr a hpre => skip pre fr a (hpre.trans (prefix_append l _)))
      fun pre fr a func hpre => start pre fr a func (hpre.trans (prefix_append l _))
    rw [foldl_append, foldl_cons, foldl_nil, startAction_eq]
    split
    · exact skip l _ a (prefix_refl _) ih ‹_›
    · exact start l _ a _ (prefix_refl _) ih ‹_›

/-! ### The loop over the slots -/

section Slots

variable (skip : ∀ (i : ℕ) (fr : Frame) (c : Bool) (f : XkbFilter), P i fr c →
    fr.state.filters[i]? = some f → f.func = none → P (i + 1) fr c)
  (call : ∀ (i : ℕ) (fr : Frame) (c : Bool) (f : XkbFilter) (func : FilterFunc), P i fr c →
    fr.state.filters[i]? = some f → f.func = some func →
    P (i + 1) ((func.call clearAll fr f k dir).store i)
      (c || (func.call clearAll fr f k dir).result == .consume))

include skip call

/-- **The rule of the loop over the slots.** The loop stops past the last slot, unless
the fuel runs out first. -/
theorem runFilters_rec :
    ∀ (fuel i : ℕ) (fr : Frame) (c : Bool), P i fr c → ∃ j,
      P j (runFilters clearAll k dir fuel i fr c).1 (runFilters clearAll k dir fuel i fr c).2 ∧
      (j = i + fuel ∨ (runFilters clearAll k dir fuel i fr c).1.state.filters.length ≤ j)
  | 0, i, fr, c, h => ⟨i, h, .inl rfl⟩
  | fuel + 1, i, fr, c, h => by
    rw [runFilters]
    split
    · rename_i hnone
      exact ⟨i, h, .inr (List.getElem?_eq_none_iff.mp hnone)⟩
    · rename_i f hf
      have hnext : P (i + 1) (runFilter clearAll k dir i f fr c).1
          (runFilter clearAll k dir i f fr c).2 := by
        unfold runFilter
        cases hfunc : f.func with
        | none => exact skip i fr c f h hf hfunc
        | some func => exact call i fr c f func h hf hfunc
      obtain ⟨j, hj, hend⟩ := runFilters_rec fuel (i + 1) _ _ hnext
      exact ⟨j, hj, hend.imp_left (by omega)⟩

/-- **What `xkb_filter_apply_all` does**: the loop over the slots, and the loop over the
actions unless a filter has consumed the event or it is a release. -/
theorem applyAllWith_cases {fr₀ : Frame} (h : P 0 fr₀ false) :
    ∃ i fr c, P i fr c ∧ (i = 3 * fr₀.state.filters.length ∨ fr.state.filters.length ≤ i) ∧
      (((c = true ∨ dir = .up) ∧ xkbFilterApplyAllWith clearAll km fr₀ k dir = fr) ∨
        (c = false ∧ dir ≠ .up ∧ xkbFilterApplyAllWith clearAll km fr₀ k dir =
          (xkbKeyGetActions fr.state.toXkbState k.key).foldl (startAction km k) fr)) := by
  unfold xkbFilterApplyAllWith
  obtain ⟨i, hi, hend⟩ := runFilters_rec skip call (3 * fr₀.state.filters.length) 0 fr₀ false h
  rw [zero_add] at hend
  revert hi hend
  rcases runFilters clearAll k dir (3 * fr₀.state.filters.length) 0 fr₀ false with ⟨fr, consumed⟩
  intro hi hend
  refine ⟨i, fr, consumed, hi, hend, ?_⟩
  dsimp only
  split
  · rename_i hstop
    exact .inl ⟨by simpa using hstop, rfl⟩
  · rename_i hnot
    obtain ⟨hc, hdir⟩ : consumed = false ∧ dir ≠ .up := by simpa using hnot
    exact .inr ⟨hc, hdir, rfl⟩

/-- The two rules together: an invariant of the loop over the slots, which gives way to one
of the loop over the actions, with the verdict on the event. -/
theorem applyAllWith_rec {fr₀ : Frame} {Q : Bool → Frame → Prop}
    (done : ∀ (i : ℕ) (fr : Frame) (c : Bool), P i fr c →
      (i = 3 * fr₀.state.filters.length ∨ fr.state.filters.length ≤ i) → Q c fr)
    (start : ∀ (fr fr' : Frame) (a : XkbAction) (func : FilterFunc), dir ≠ .up → Q false fr →
      Q false fr' → a ∈ xkbKeyGetActions fr.state.toXkbState k.key →
      (resolveAction km fr'.state a).type.filterFunc = some func →
      Q false (fr'.startFilter k.addr (resolveAction km fr'.state a) func).1) (h : P 0 fr₀ false) :
    ∃ c, Q c (xkbFilterApplyAllWith clearAll km fr₀ k dir) := by
  obtain ⟨i, fr, c, hi, hend, ⟨-, heq⟩ | ⟨rfl, hdir, heq⟩⟩ := applyAllWith_cases km skip call h
  · exact ⟨c, heq ▸ done i fr c hi hend⟩
  · have hrun : Q false fr := done i fr false hi hend
    refine ⟨false, heq ▸ ?_⟩
    refine actions_rec km (Q := fun _ fr' => Q false fr') (fun _ _ _ _ h _ => h) ?_ hrun
    intro pre fr' a func hpre h' hfunc
    exact start fr fr' a func hdir hrun h' (hpre.subset (by simp)) hfunc

end Slots

/-- A turn of the loop, at its end. -/
theorem runFilters_succ (clearAll : Frame → Frame) (n i : ℕ) (fr : Frame) (c : Bool) :
    runFilters clearAll k dir (n + 1) i fr c =
      match (runFilters clearAll k dir n i fr c).1.state.filters[i + n]? with
      | none => runFilters clearAll k dir n i fr c
      | some f => runFilter clearAll k dir (i + n) f (runFilters clearAll k dir n i fr c).1
          (runFilters clearAll k dir n i fr c).2 := by
  induction n generalizing i fr c with
  | zero => cases hi : fr.state.filters[i]? <;> simp [runFilters, hi]
  | succ n ih =>
    rw [runFilters]
    conv_rhs => rw [runFilters]
    cases hi : fr.state.filters[i]? with
    | none =>
      have hnone : fr.state.filters[i + (n + 1)]? = none := by
        rw [List.getElem?_eq_none_iff] at hi ⊢
        omega
      simp only [hnone]
    | some f =>
      dsimp only
      rw [ih, show i + 1 + n = i + (n + 1) by omega]

/-- The frame before the given turn of the loop over the slots, which runs the filter of that
slot. -/
def frameBefore (km : XkbKeymap) (k : KeyRef) (dir : KeyDirection) (fr : Frame) (n : ℕ) : Frame :=
  (runFilters (clearAllLatchesAndLocks km) k dir n 0 fr false).1

/-- **What one turn does**: nothing for a free slot and past the end, otherwise it calls the
filter. -/
theorem frameBefore_succ (n : ℕ) :
    (frameBefore km k dir fr (n + 1) = frameBefore km k dir fr n ∧
        ∀ f, (frameBefore km k dir fr n).state.filters[n]? = some f → f.func = none) ∨
      ∃ f func, (frameBefore km k dir fr n).state.filters[n]? = some f ∧ f.func = some func ∧
        frameBefore km k dir fr (n + 1) =
          (func.call (clearAllLatchesAndLocks km) (frameBefore km k dir fr n) f k dir).store n := by
  have hnext : (runFilters (clearAllLatchesAndLocks km) k dir (n + 1) 0 fr false).1 = _ :=
    congrArg Prod.fst (runFilters_succ (clearAllLatchesAndLocks km) n 0 fr false)
  rw [Nat.zero_add] at hnext
  unfold frameBefore
  rw [hnext]
  generalize clearAllLatchesAndLocks km = clearAll
  generalize runFilters clearAll k dir n 0 fr false = r
  cases hf : r.1.state.filters[n]? with
  | none => exact .inl ⟨rfl, by simp⟩
  | some f =>
    cases hfunc : f.func with
    | none =>
      refine .inl ⟨?_, fun g hg => (Option.some.inj hg) ▸ hfunc⟩
      simp only [runFilter, hfunc]
    | some func =>
      refine .inr ⟨f, func, rfl, hfunc, ?_⟩
      simp only [runFilter, hfunc]

/-- The rule for an invariant of the frame alone. -/
theorem runFilters_invariant {P : Frame → Prop}
    (call : ∀ (i : ℕ) (fr : Frame) (f : XkbFilter) (func : FilterFunc), P fr →
      fr.state.filters[i]? = some f → f.func = some func →
      P ((func.call clearAll fr f k dir).store i)) {fuel i : ℕ} {c : Bool} (h : P fr) :
    P (runFilters clearAll k dir fuel i fr c).1 := by
  obtain ⟨j, hj, -⟩ := runFilters_rec (P := fun _ fr _ => P fr) (fun _ _ _ _ h _ _ => h)
    (fun i fr _ f func h hf hfunc => call i fr f func h hf hfunc) fuel i fr c h
  exact hj

/-- The rule for an invariant: one filter call, and one start of an action of the key's
level. -/
theorem applyAllWith_invariant {km : XkbKeymap} {P : Frame → Prop}
    (call : ∀ (i : ℕ) (fr : Frame) (f : XkbFilter) (func : FilterFunc), P fr →
      fr.state.filters[i]? = some f → f.func = some func →
      P ((func.call clearAll fr f k dir).store i))
    (start : ∀ (fr fr' : Frame) (a : XkbAction) (func : FilterFunc), dir ≠ .up → P fr → P fr' →
      a ∈ xkbKeyGetActions fr.state.toXkbState k.key →
      (resolveAction km fr'.state a).type.filterFunc = some func →
      P (fr'.startFilter k.addr (resolveAction km fr'.state a) func).1) (h : P fr) :
    P (xkbFilterApplyAllWith clearAll km fr k dir) := by
  obtain ⟨-, hQ⟩ := applyAllWith_rec km (P := fun _ fr _ => P fr) (Q := fun _ fr => P fr)
    (fun _ _ _ _ h _ _ => h) (fun i fr _ f func h hf hfunc => call i fr f func h hf hfunc)
    (fun _ _ _ h _ => h) start h
  exact hQ

/-! ### Faked keys -/

/-- A key with one group has only that layout. -/
theorem xkbKeymapKeyEffectiveLayout_one {key : XkbKey} (h : key.groups.length = 1) (layout : ℕ) :
    xkbKeymapKeyEffectiveLayout key layout = some 0 := by
  have hr := wrapGroup_range Nat.one_pos (BitVec.ofNat 32 layout).toInt key.outOfRangeGroupPolicy
    key.outOfRangeGroupNumber
  unfold xkbKeymapKeyEffectiveLayout
  rw [h, xkbWrapGroupIntoRange_eq Nat.one_pos, Option.some.injEq]
  omega

/-- In every state, the actions of a key that breaks latches are its internal action. -/
theorem xkbKeyGetActions_syntheticBreakKey (state : XkbState) {addr : KeyAddr}
    {flags clear : BitVec 32} :
    xkbKeyGetActions state (syntheticBreakKey addr flags clear).key =
      [{ type := .internal, internal := { flags := flags, clearLatchedMods := clear } }] := by
  have hlayout : ∀ layout,
      xkbKeymapKeyEffectiveLayout (syntheticBreakKey addr flags clear).key layout = some 0 :=
    xkbKeymapKeyEffectiveLayout_one rfl
  have hlevel : stateKeyGetLevel state (syntheticBreakKey addr flags clear).key 0 = some 0 := by
    simp [stateKeyGetLevel, syntheticBreakKey, syntheticKeyType, getEntryForMods, entryIsActive]
  simp only [xkbKeyGetActions, stateKeyGetLayout, hlayout, hlevel, xkbKeymapKeyGetActionsByLevel]
  rfl

/-- The press of such a key only runs the filters. -/
theorem xkbFilterPress_syntheticBreakKey (addr : KeyAddr) (flags clear : BitVec 32) :
    xkbFilterPress km fr (syntheticBreakKey addr flags clear) =
      (runFilters id (syntheticBreakKey addr flags clear) .down (3 * fr.state.filters.length) 0 fr
        false).1 := by
  unfold xkbFilterPress xkbFilterApplyAllWith
  dsimp only
  split
  · rfl
  · rw [xkbKeyGetActions_syntheticBreakKey, foldl_cons, foldl_nil, startAction]
    rfl

/-- The keys that the out-of-band updates press to break latches. -/
inductive BreakKey : KeyRef → Prop
  | mod (clear : BitVec 32) : BreakKey
      (syntheticBreakKey .syntheticKeyBreakModLatch internalBreaksModLatch clear)
  | group : BreakKey
      (syntheticBreakKey .syntheticKeyBreakGroupLatch internalBreaksGroupLatch 0#32)

/-- The latches that the out-of-band updates tap. -/
inductive TapAction : XkbAction → FilterFunc → Prop
  | mod (mask : BitVec 32) :
      TapAction { type := .modLatch, mods := { mods := { mask := mask } } } .modLatch
  | group (group : BitVec 32) :
      TapAction { type := .groupLatch, group := { flags := actionAbsoluteSwitch, group := group } }
        .groupLatch

/-- **The rule of `state_update_latched_locked`** for an invariant: the locks, the
latched modifiers cleared at once, one filter call for a key that breaks latches, and
one latch tap, for modifiers that the update latches. -/
theorem latchedLocked_invariant {km : XkbKeymap} {update : XkbStateComponentsUpdate}
    {P : Frame → Prop} (locks : ∀ fr, P fr → P (fr.mapComponents (updateLocks km update)))
    (unlatch : ∀ (fr : Frame) (m : BitVec 32), P fr →
      P (fr.mapComponents fun c => { c with latchedMods := c.latchedMods &&& ~~~m }))
    (call : ∀ (k : KeyRef) (i : ℕ) (fr : Frame) (f : XkbFilter) (func : FilterFunc), BreakKey k →
      P fr → fr.state.filters[i]? = some f → f.func = some func →
      P ((func.call id fr f k .down).store i))
    (tap : ∀ (fr : Frame) (a : XkbAction) (func : FilterFunc), TapAction a func →
      Sub a.mods.mods.mask (resolveToCanonicalMods km update.affectLatchedMods) → P fr →
      P (fr.tapLatch a func)) (h : P fr) : P (stateUpdateLatchedLocked km fr update) := by
  have press : ∀ (addr : KeyAddr) (flags clear : BitVec 32) (fr : Frame),
      BreakKey (syntheticBreakKey addr flags clear) → P fr →
      P (xkbFilterPress km fr (syntheticBreakKey addr flags clear)) := by
    intro addr flags clear fr hk hfr
    rw [xkbFilterPress_syntheticBreakKey]
    exact runFilters_invariant (fun i fr f func => call _ i fr f func hk) hfr
  have mods : ∀ (fr : Frame) (latches : BitVec 32), P fr → P (updateLatchModifiers km fr
      (resolveToCanonicalMods km update.affectLatchedMods) latches) := fun fr latches hfr =>
    tap _ _ _ (.mod _) (sub_and_left (.refl _)) (press _ _ _ _ (.mod _) (unlatch _ _ hfr))
  have group : ∀ (fr : Frame) (group : BitVec 32), P fr → P (updateLatchGroup km fr group) :=
    fun fr group hfr => tap _ _ _ (.group _) (sub_zero_left _) (press _ _ _ _ .group hfr)
  have h₁ : P (if resolveToCanonicalMods km update.affectLatchedMods = 0#32
      then fr.mapComponents (updateLocks km update)
      else updateLatchModifiers km (fr.mapComponents (updateLocks km update))
        (resolveToCanonicalMods km update.affectLatchedMods)
        (resolveToCanonicalMods km update.latchedMods)) := by
    split
    · exact locks fr h
    · exact mods _ _ (locks fr h)
  unfold stateUpdateLatchedLocked
  split
  · exact group _ _ h₁
  · exact h₁

end Xkbcommon
