import Xkbcommon.Compile
import Xkbcommon.Invariant
import Xkbcommon.Lib.Runs

/-!
# From a server state to a client state

A display server sends the six components of its state to the clients, and a client feeds
them to `xkb_state_update_mask`. The client resolves every mask again, and so gets what the
server has exactly if the masks of the server are canonical already.

They are, along every run whose actions name only modifiers that exist
(`Xkbcommon.namesKnownMods`): the filters write no modifiers but those of their actions, and
the out-of-band updates resolve theirs first (`Xkbcommon.MasksIn`). A number that names
another modifier is kept by the compiler, set by the server and dropped by the client.
-/

namespace Xkbcommon

open Masks Xkbcommon.Frame ModBit FilterFunc StateComponents

variable {func : FilterFunc} {clearAll : Frame → Frame} {fr : Frame} {i : ℕ}

/-! ### The masks of a server state -/

/-- The modifiers that a filter may write. -/
def XkbFilter.writtenMods (f : XkbFilter) : BitVec 32 :=
  match f.func with
  | some .modSet | some .modLatch | some .modLock => f.action.mods.mods.mask
  | _ => 0#32

/-- **The modifiers of a state are within a mask**: those that are latched, locked or about to
be set, and those that its filters may write. -/
structure MasksIn (C : BitVec 32) (fr : Frame) : Prop where
  latched : Sub fr.state.components.latchedMods C
  locked : Sub fr.state.components.lockedMods C
  set : Sub fr.state.setMods C
  filters : ∀ f ∈ fr.state.filters, Sub f.writtenMods C

section Masks

variable {C : BitVec 32} {f f' : XkbFilter} {k : KeyRef} {dir : KeyDirection}

theorem writtenMods_of_func
    (h : f'.func ≠ some .modSet ∧ f'.func ≠ some .modLatch ∧ f'.func ≠ some .modLock) :
    f'.writtenMods = 0#32 := by
  unfold XkbFilter.writtenMods
  split
  · exact absurd ‹_› h.1
  · exact absurd ‹_› h.2.1
  · exact absurd ‹_› h.2.2
  · rfl

/-- A filter writes no more than its action has. -/
theorem writtenMods_sub (hmask : Sub f'.action.mods.mods.mask C) : Sub f'.writtenMods C := by
  unfold XkbFilter.writtenMods
  split <;> first | exact hmask | exact sub_zero_left C

/-- What a filter call writes is within the mask, if the modifiers of the filter are. -/
structure CallIn (C : BitVec 32) (step : FilterStep) : Prop where
  latched : Sub step.frame.state.components.latchedMods C
  locked : Sub step.frame.state.components.lockedMods C
  set : Sub step.frame.state.setMods C
  filter : Sub step.filter.writtenMods C

theorem callIn_modifier (h : MasksIn C fr) (hmask : Sub f.action.mods.mods.mask C)
    (hpriv : func = .modSet ∨ func = .modLatch ∨
      func = .modLock) : CallIn C (func.call clearAll fr f k dir) := by
  have hwritten : ∀ f' : XkbFilter, f'.action.mods.mods = f.action.mods.mods →
      Sub f'.writtenMods C := fun f' heq => writtenMods_sub (heq ▸ hmask)
  obtain ⟨hlatched, hlocked, hset, -⟩ := h
  rcases hpriv with rfl | rfl | rfl <;>
    simp only [call, xkbFilterModSetFunc, xkbFilterModLatchFunc, xkbFilterModLockFunc,
      countedSwitch, promoteModLatch, xkbFilterModLockNew, xkbFilterModSetNew] <;>
    (repeat' split) <;>
    refine ⟨?_, ?_, ?_, hwritten _ rfl⟩ <;>
    simp only [mapComponents, addSetMods, addClearMods, hlatched, hlocked, hset,
      hmask, sub_or, sub_and_left]

/-- The filters that are not about modifiers write none. -/
theorem callIn_other (h : MasksIn C fr) (hfunc : f.func = some func)
    (hne : func ≠ .modSet ∧ func ≠ .modLatch ∧ func ≠ .modLock) :
    CallIn C (func.call id fr f k dir) := by
  have hfilter : Sub (func.call id fr f k dir).filter.writtenMods C := by
    rw [writtenMods_of_func]
    · exact sub_zero_left C
    · rcases (call_writes fr hfunc k dir).func with heq | heq | ⟨heq, -⟩ | ⟨-, heq⟩
      · simpa [heq] using hne
      · simp [heq]
      · exact absurd heq hne.2.1
      · simp [heq]
  refine ⟨?_, ?_, ?_, hfilter⟩ <;> cases func <;>
    first
      | exact absurd rfl hne.1
      | exact absurd rfl hne.2.1
      | exact absurd rfl hne.2.2
      | skip
  all_goals
    simp only [call, xkbFilterGroupSetFunc, xkbFilterGroupLatchFunc,
      xkbFilterGroupLockFunc, xkbFilterCtrlsFunc, xkbFilterRedirectKeyFunc, xkbFilterGroupLockNew,
      countedSwitch, id_eq, ite_self]
    (repeat' split) <;> first | exact h.latched | exact h.locked | exact h.set

/-- A filter call stays within the mask, unless it clears all latches. -/
theorem MasksIn.store (h : MasksIn C fr) (hf : fr.state.filters[i]? = some f)
    (hfunc : f.func = some func) : MasksIn C ((func.call id fr f k dir).store i) := by
  have hcall : CallIn C (func.call id fr f k dir) := by
    by_cases hmod : func = .modSet ∨ func = .modLatch ∨ func = .modLock
    · refine callIn_modifier h ?_ hmod
      have hin := h.filters f (List.mem_of_getElem? hf)
      rcases hmod with rfl | rfl | rfl <;> simpa only [XkbFilter.writtenMods, hfunc] using hin
    · rw [not_or, not_or] at hmod
      exact callIn_other h hfunc hmod
  refine ⟨hcall.latched, hcall.locked, hcall.set, fun g hg => ?_⟩
  rw [FilterStep.store, setFilter, (local_call func fr f k dir).filters] at hg
  rcases List.mem_or_eq_of_mem_set hg with hg | rfl
  · exact h.filters g hg
  · exact hcall.filter

/-- The start of an action stays within the mask, if its modifiers do. -/
theorem MasksIn.startFilter (h : MasksIn C fr) {key : KeyAddr} {action : XkbAction}
    (hmask : (func = .modSet ∨ func = .modLatch ∨ func = .modLock) →
      Sub action.mods.mods.mask C) : MasksIn C (fr.startFilter key action func).1 := by
  obtain ⟨f₀, -, haction, hfunc, -, heq⟩ := startFilter_eq fr key func
  have hnew : CallIn C ⟨(func.start fr f₀).1, (func.start fr f₀).2, .proceed⟩ := by
    by_cases hmod : func = .modSet ∨ func = .modLatch ∨ func = .modLock
    · have hm : Sub f₀.action.mods.mods.mask C := haction ▸ hmask hmod
      obtain ⟨hlatched, hlocked, hset, -⟩ := h
      rcases hmod with rfl | rfl | rfl <;>
        simp only [start, xkbFilterModSetNew, xkbFilterModLatchNew,
          xkbFilterModLockNew] <;>
        (repeat' split) <;> refine ⟨?_, ?_, ?_, writtenMods_sub hm⟩ <;>
        simp only [mapComponents, addSetMods, hlatched, hlocked, hset, hm, sub_or, sub_and_left]
    · rw [not_or, not_or] at hmod
      have hwritten : ∀ f' : XkbFilter, f'.func = some func ∨ f'.func = none →
          Sub f'.writtenMods C := fun f' h => by
        rw [writtenMods_of_func]
        · exact sub_zero_left C
        · rcases h with h | h <;> simp [h, hmod.1, hmod.2.1, hmod.2.2]
      cases func with
      | modSet => exact absurd rfl hmod.1
      | modLatch => exact absurd rfl hmod.2.1
      | modLock => exact absurd rfl hmod.2.2
      | groupSet | groupLatch => exact ⟨h.latched, h.locked, h.set, hwritten _ (.inl hfunc)⟩
      | groupLock | ctrls | redirectKey =>
        simp only [start, xkbFilterGroupLockNew, xkbFilterCtrlsNew, xkbFilterRedirectKeyNew]
        (repeat' split) <;> exact ⟨h.latched, h.locked, h.set, hwritten _ (by simp [hfunc])⟩
  rw [heq]
  refine ⟨hnew.latched, hnew.locked, hnew.set, fun g hg => ?_⟩
  rcases Slots.mem_put hg with hg | rfl
  · exact h.filters g hg
  · exact hnew.filter

/-- A tapped latch stays within the mask, if its modifiers do. -/
theorem MasksIn.tapLatch (h : MasksIn C fr) {a : XkbAction} (ha : TapAction a func)
    (hmask : Sub a.mods.mods.mask C) : MasksIn C (fr.tapLatch a func) := by
  cases ha with
  | mod mask =>
    obtain ⟨f, -, -, -, -, haction, heq⟩ := tapLatch_mod mask
    rw [heq]
    refine ⟨sub_or h.latched hmask, h.locked, sub_or h.set hmask, fun g hg => ?_⟩
    rcases Slots.mem_put hg with hg | rfl
    · exact h.filters g hg
    · exact writtenMods_sub (haction ▸ hmask)
  | group group =>
    obtain ⟨f, delta, -, -, -, -, -, haction, heq⟩ := tapLatch_group group
    rw [heq]
    refine ⟨h.latched, h.locked, h.set, fun g hg => ?_⟩
    rcases Slots.mem_put hg with hg | rfl
    · exact h.filters g hg
    · exact writtenMods_sub (haction ▸ hmask)

end Masks

/-! ### Whole calls -/

section Canonical

variable {km : XkbKeymap} {s : XkbServerState}

/-- **An out-of-band update keeps the masks canonical**: it resolves what it is given. -/
theorem MasksIn.latchedLocked (hkm : MapsIntoCanonical km) (h : MasksIn km.canonicalStateMask fr)
    (update : XkbStateComponentsUpdate) :
    MasksIn km.canonicalStateMask (stateUpdateLatchedLocked km fr update) := by
  refine latchedLocked_invariant (P := MasksIn km.canonicalStateMask) ?_ ?_ ?_ ?_ h
  · intro fr' h
    refine ⟨h.latched, ?_, h.set, h.filters⟩
    dsimp only [mapComponents, updateLocks]
    split
    · exact h.locked
    · exact sub_or (sub_and_left h.locked) (sub_and_left (hkm.resolve _))
  · exact fun fr' m h => ⟨sub_and_left h.latched, h.locked, h.set, h.filters⟩
  · exact fun k i fr' f func _ h hf hfunc => h.store hf hfunc
  · exact fun fr' a func ha hmask h => h.tapLatch ha (hmask.trans (hkm.resolve _))

/-- A filter call keeps the masks canonical, the clearing of all latches included. -/
theorem MasksIn.call_store (hkm : MapsIntoCanonical km) (h : MasksIn km.canonicalStateMask fr)
    {k : KeyRef} {dir : KeyDirection} {f : XkbFilter} (hf : fr.state.filters[i]? = some f)
    (hfunc : f.func = some func) :
    MasksIn km.canonicalStateMask
      ((func.call (clearAllLatchesAndLocks km) fr f k dir).store i) := by
  rcases call_cases (clearAllLatchesAndLocks km) func fr f k dir with
    heq | ⟨rfl, -, controls, -, -, heq⟩ <;> rw [heq]
  · exact h.store hf hfunc
  · have h₁ : MasksIn km.canonicalStateMask (fr.setControls controls) :=
      ⟨h.latched, h.locked, h.set, h.filters⟩
    have h₂ : MasksIn km.canonicalStateMask
        (clearAllLatchesAndLocks km (fr.setControls controls)) :=
      h₁.latchedLocked hkm clearAllUpdate
    generalize clearAllLatchesAndLocks km (fr.setControls controls) = fr' at h₂
    refine ⟨h₂.latched, h₂.locked, h₂.set, fun g hg => ?_⟩
    rcases List.mem_or_eq_of_mem_set hg with hg | rfl
    · exact h₂.filters g hg
    · rw [writtenMods_of_func (by simp)]
      exact sub_zero_left _

/-- The modifiers that are depressed after an event were so before, or have been set. -/
theorem sub_updateBaseMods :
    Sub (updateBaseMods s).components.baseMods (s.components.baseMods ||| s.setMods) ∧
      (updateBaseMods s).setMods = 0#32 := by
  have hset : ∀ m : ModBit, m.applySet.applyClear.set = false := by
    intro m
    unfold applyClear applySet
    (repeat' split) <;> simp_all
  have hdepressed : ∀ m : ModBit, m.applySet.applyClear.depressed = true →
      (m.depressed || m.set) = true := by
    intro m
    unfold applyClear applySet
    (repeat' split) <;> simp_all
  constructor
  · intro b hb
    have hbit := congrArg depressed (modBit_updateBaseMods s ⟨b, BitVec.lt_of_getLsbD hb⟩)
    rw [BitVec.getLsbD_or]
    exact hdepressed (s.modBit ⟨b, BitVec.lt_of_getLsbD hb⟩) (hbit.symm.trans hb)
  · refine BitVec.eq_of_getLsbD_eq fun b hb => ?_
    rw [BitVec.getLsbD_zero]
    have hbit := congrArg set (modBit_updateBaseMods s ⟨b, hb⟩)
    exact hbit.trans (hset _)

/-- **All masks of a server state are canonical.** -/
structure ServerCanonical (km : XkbKeymap) (s : XkbServerState) : Prop where
  masks : MasksIn km.canonicalStateMask ⟨s, none⟩
  base : Sub s.components.baseMods km.canonicalStateMask

/-- A key event keeps the masks canonical, if those of the actions of its level are. -/
theorem ServerCanonical.handleKey (hkm : MapsIntoCanonical km) (h : ServerCanonical km s)
    {k : KeyRef} {dir : KeyDirection}
    (hactions : dir ≠ .up → ∀ a ∈ xkbKeyGetActions s.toXkbState k.key, isModAction a = true →
      Sub a.mods.mods.mask km.canonicalStateMask) :
    ServerCanonical km (handleKey km ⟨s, none⟩ k dir).state := by
  have hreset : MasksIn km.canonicalStateMask (⟨s, none⟩ : Frame).resetMasks :=
    ⟨h.masks.latched, h.masks.locked, sub_zero_left _, h.masks.filters⟩
  have hfoot := footprint_xkbFilterApplyAll km (⟨s, none⟩ : Frame).resetMasks k dir
  have hrun : MasksIn km.canonicalStateMask
      (xkbFilterApplyAll km (⟨s, none⟩ : Frame).resetMasks k dir) := by
    refine (applyAllWith_invariant (P := fun fr => Footprint (⟨s, none⟩ : Frame).resetMasks fr ∧
      MasksIn km.canonicalStateMask fr) ?_ ?_ ⟨.refl _, hreset⟩).2
    · rintro i fr' f func ⟨hfoot', h'⟩ hf hfunc
      exact ⟨(hfoot'.trans (footprint_call (footprint_clearAllLatchesAndLocks km) func fr' f k
        dir)).setFilter i _, h'.call_store hkm hf hfunc⟩
    · rintro fr₁ fr' a func hdir ⟨hfoot₁, -⟩ ⟨hfoot', h'⟩ ha hfunc
      refine ⟨hfoot'.trans (footprint_startFilter fr' _ _ func), h'.startFilter fun hmod => ?_⟩
      rw [hfoot₁.xkbKeyGetActions] at ha
      rw [resolveAction_mods]
      refine hactions hdir a ha ?_
      rcases resolveAction_type km with htype | ⟨htype, -⟩ | ⟨htype, htype'⟩
      · rw [htype] at hfunc
        rcases hmod with rfl | rfl | rfl <;> cases htype' : a.type <;>
          simp_all [XkbActionType.filterFunc, isModAction]
      · simp [isModAction, htype]
      · rw [htype'] at hfunc
        rcases hmod with rfl | rfl | rfl <;> simp [XkbActionType.filterFunc] at hfunc
  rw [handleKey_eq]
  generalize xkbFilterApplyAll km (⟨s, none⟩ : Frame).resetMasks k dir = fr' at hrun hfoot
  obtain ⟨hbase, hset⟩ := sub_updateBaseMods
  have hc := updateBaseMods_components fr'.state
  refine ⟨⟨?_, ?_, ?_, fun f hf => ?_⟩, ?_⟩
  · have hlatched := congrArg latchedMods hc
    exact hlatched ▸ hrun.latched
  · have hlocked := congrArg lockedMods hc
    exact hlocked ▸ hrun.locked
  · show Sub (updateBaseMods fr'.state).setMods _
    rw [hset]
    exact sub_zero_left _
  · have hf' : f ∈ (updateBaseMods fr'.state).filters := hf
    rw [updateBaseMods_filters] at hf'
    exact hrun.filters f hf'
  · refine hbase.trans (sub_or ?_ hrun.set)
    rw [hfoot.baseMods]
    exact h.base

end Canonical

/-! ### Runs -/

/-- **The actions that may start name modifiers of the keymap.** -/
def namesKnownMods (km : XkbKeymap) (s : XkbServerState) : ServerCall → Bool
  | .updateKey kc dir =>
    match eventKey km kc dir with
    | none => true
    | some k => dir == .up || (xkbKeyGetActions s.toXkbState k.key).all fun a =>
        !isModAction a || a.mods.mods.mods &&& unknownMods km == 0#32
  | _ => true

theorem serverCanonical_new {km : XkbKeymap} {m : LegacyMode} :
    ServerCanonical km (legacyStateNew km m) :=
  ⟨⟨sub_zero_left _, sub_zero_left _, sub_zero_left _,
    fun f hf => absurd hf (by simp [legacyStateNew, xkbServerStateInit])⟩, sub_zero_left _⟩

/-- **The masks stay canonical along every run** on a compiled keymap whose actions name
modifiers of the keymap. -/
theorem serverCanonical_serverRun (km : XkbKeymap) (m : LegacyMode) {cs : List ServerCall}
    (hcs : ∀ c ∈ cs, c.isKeyOrLatch = true)
    (hknown : Runs.History (fun pre c => namesKnownMods (updateDerivedKeymapFields km)
      (serverRun (updateDerivedKeymapFields km) m pre) c = true) cs) :
    ServerCanonical (updateDerivedKeymapFields km)
      (serverRun (updateDerivedKeymapFields km) m cs) := by
  have hkm := mapsIntoCanonical_compile km
  refine serverRun_invariant hcs serverCanonical_new ?_ ?_
  · intro pre kc dir k hpre hk ih
    refine ih.handleKey hkm fun hdir a ha hmod => ?_
    refine mask_sub_canonical (keyOf_spec (keyOf_of_eventKey hk)).1 ha hmod ?_
    have hlast := hknown pre _ hpre
    simp only [namesKnownMods, hk, Bool.or_eq_true, beq_iff_eq, hdir, false_or,
      List.all_eq_true, Bool.not_eq_true'] at hlast
    exact (hlast a ha).resolve_left (by simp [hmod])
  · intro pre update ih
    have h := ih.masks.latchedLocked hkm update
    have hfoot := footprint_stateUpdateLatchedLocked (updateDerivedKeymapFields km)
      ⟨serverRun (updateDerivedKeymapFields km) m pre, none⟩ update
    refine ⟨⟨h.latched, h.locked, h.set, h.filters⟩, fun i hi => ih.base i ?_⟩
    exact (congrArg (·.getLsbD i) hfoot.baseMods).symm.trans hi

/-- What a server tells its clients: the depressed, latched, locked and effective modifiers
and layouts. -/
def StateComponents.serialized (c : StateComponents) :
    (BitVec 32 × BitVec 32 × BitVec 32 × BitVec 32) × BitVec 32 × BitVec 32 × BitVec 32 × ℕ :=
  ((c.baseMods, c.latchedMods, c.lockedMods, c.mods),
    c.baseGroup, c.latchedGroup, c.lockedGroup, c.group)

/-- A client state that is fed the components of a server state. -/
def mirror (km : XkbKeymap) (client : XkbState) (c : StateComponents) : XkbState :=
  (xkbStateUpdateMask km client (serializeMods c xkbStateModsDepressed)
    (serializeMods c xkbStateModsLatched) (serializeMods c xkbStateModsLocked)
    (serializeLayout c xkbStateLayoutDepressed) (serializeLayout c xkbStateLayoutLatched)
    (serializeLayout c xkbStateLayoutLocked)).1

/-- The six components, as they are serialized. -/
theorem serialize_components (c : StateComponents) :
    serializeMods c xkbStateModsDepressed = c.baseMods ∧
      serializeMods c xkbStateModsLatched = c.latchedMods ∧
      serializeMods c xkbStateModsLocked = c.lockedMods ∧
      serializeLayout c xkbStateLayoutDepressed = c.baseGroup ∧
      serializeLayout c xkbStateLayoutLatched = c.latchedGroup ∧
      serializeLayout c xkbStateLayoutLocked = c.lockedGroup := by
  refine ⟨?_, ?_, ?_, ?_, ?_, ?_⟩ <;>
    simp [serializeMods, serializeLayout, anyBit, xkbStateModsDepressed, xkbStateModsLatched,
      xkbStateModsLocked, xkbStateModsEffective, xkbStateLayoutDepressed, xkbStateLayoutLatched,
      xkbStateLayoutLocked, xkbStateLayoutEffective]

/-- **The round trip of one state**: a client gets what a server has, if the masks are
canonical and the policies agree. -/
theorem mirror_serialized {km : XkbKeymap} {s client : XkbState} (hderived : IsDerived km s)
    (hclient : client.isClient = true) (hrange : client.outOfRangeGroup = s.outOfRangeGroup)
    (hbase : Sub s.components.baseMods km.canonicalStateMask)
    (hlatched : Sub s.components.latchedMods km.canonicalStateMask)
    (hlocked : Sub s.components.lockedMods km.canonicalStateMask) :
    (mirror km client s.components).components.serialized = s.components.serialized := by
  obtain ⟨h₁, h₂, h₃, h₄, h₅, h₆⟩ := serialize_components s.components
  rw [mirror, h₁, h₂, h₃, h₄, h₅, h₆, xkbStateUpdateMask, if_neg (by simp [hclient])]
  simp only [xkbStateUpdateDerived, resolveToCanonicalMods_of_sub hbase,
    resolveToCanonicalMods_of_sub hlatched, resolveToCanonicalMods_of_sub hlocked, hrange]
  generalize hc : ({ client.components with
    baseMods := s.components.baseMods
    latchedMods := s.components.latchedMods
    lockedMods := s.components.lockedMods
    baseGroup := s.components.baseGroup
    latchedGroup := s.components.latchedGroup
    lockedGroup := s.components.lockedGroup } : StateComponents) = c
  have hgroup : (deriveComponents km s.outOfRangeGroup c).lockedGroup =
      s.components.lockedGroup := by
    have heq : c.lockedGroup = s.components.lockedGroup := by rw [← hc]
    exact (hderived.lockedGroup _ heq).trans heq
  have heffective : (deriveComponents km s.outOfRangeGroup c).group = s.components.group := by
    have hdef : ∀ c' : StateComponents, (deriveComponents km s.outOfRangeGroup c').group =
        (xkbWrapGroupIntoRange (c'.baseGroup + c'.latchedGroup +
          (deriveComponents km s.outOfRangeGroup c').lockedGroup) km.numGroups
          s.outOfRangeGroup.policy s.outOfRangeGroup.redirectGroup).getD 0 := fun _ => rfl
    obtain ⟨c₀, hc₀⟩ := hderived
    rw [hdef c, hgroup, ← hc]
    dsimp only
    rw [hc₀, hdef c₀]
    rfl
  have hmods : (deriveComponents km s.outOfRangeGroup c).mods = s.components.mods := by
    obtain ⟨c₀, hc₀⟩ := hderived
    rw [deriveComponents_mods, ← hc]
    dsimp only
    rw [hc₀]
    rfl
  rw [serialized, hgroup, heffective, hmods]
  simp only [deriveComponents_baseMods, deriveComponents_latchedMods, deriveComponents_lockedMods,
    deriveComponents_baseGroup, deriveComponents_latchedGroup, ← hc]
  rfl

/-- **Server to client round trip**: along every run of key events and requests to latch and
lock on a compiled keymap, whose actions name modifiers of the keymap, a fresh client state
that is fed the six components has the modifiers and the layouts of the server state. -/
theorem server_client_roundtrip (km : XkbKeymap) (m : LegacyMode) {cs : List ServerCall}
    (hcs : ∀ c ∈ cs, c.isKeyOrLatch = true)
    (hknown : Runs.History (fun pre c => namesKnownMods (updateDerivedKeymapFields km)
      (serverRun (updateDerivedKeymapFields km) m pre) c = true) cs)
    {mode : StateMode} (hmode : mode = .clientState ∨ mode = .legacyMixedState) :
    (mirror (updateDerivedKeymapFields km) (xkbClientStateNew (updateDerivedKeymapFields km) mode)
        (serverRun (updateDerivedKeymapFields km) m cs).components).components.serialized =
      (serverRun (updateDerivedKeymapFields km) m cs).components.serialized := by
  have h := serverCanonical_serverRun km m hcs hknown
  refine mirror_serialized (s := (serverRun (updateDerivedKeymapFields km) m cs).toXkbState)
    (serverReachable_serverRun _ m cs).isDerived ?_ ?_ h.base h.masks.latched h.masks.locked
  · rcases hmode with rfl | rfl <;> rfl
  · exact (serverRun_setup hcs).2.2.symm

/-- A keymap of the real modifiers: keys that set the first, latch the second and set the last
bit of a mask, which encodes no modifier. -/
def realModsKeymap : XkbKeymap where
  maxKeyCode := 2
  numKeysLow := 3
  keys := [oneLevelKey 0 [setMods 1#32], oneLevelKey 1 [latchMods 2#32],
    oneLevelKey 2 [setMods 0x80000000#32]]
  mods := [1#32, 2#32, 4#32, 8#32, 16#32, 32#32, 64#32, 128#32]
  numGroups := 2

/-- Calls that depress, latch and lock modifiers of `Xkbcommon.realModsKeymap`. -/
def roundtripCalls : List ServerCall :=
  [.updateKey 1 .down, .updateKey 1 .up, .updateKey 0 .down,
    .updateLatchedLocked 0#32 0#32 false 0#32 4#32 4#32 true 1#32]

/-- Three modifiers and a locked layout make the round trip. -/
theorem server_client_roundtrip_three :
    (serverRun (updateDerivedKeymapFields realModsKeymap) .mixed
        roundtripCalls).components.serialized = ((1#32, 2#32, 4#32, 7#32), 0#32, 0#32, 1#32, 1) ∧
      (mirror (updateDerivedKeymapFields realModsKeymap)
        (xkbClientStateNew (updateDerivedKeymapFields realModsKeymap) .clientState)
        (serverRun (updateDerivedKeymapFields realModsKeymap) .mixed
          roundtripCalls).components).components.serialized =
        ((1#32, 2#32, 4#32, 7#32), 0#32, 0#32, 1#32, 1) := by
  have hserver : (serverRun (updateDerivedKeymapFields realModsKeymap) .mixed
      roundtripCalls).components.serialized = ((1#32, 2#32, 4#32, 7#32), 0#32, 0#32, 1#32, 1) := by
    decide +kernel
  have hknown : Runs.History (fun pre c => namesKnownMods
      (updateDerivedKeymapFields realModsKeymap)
      (serverRun (updateDerivedKeymapFields realModsKeymap) .mixed pre) c = true)
      roundtripCalls := by decide +kernel
  have h := server_client_roundtrip realModsKeymap .mixed
    (show ∀ c ∈ roundtripCalls, c.isKeyOrLatch = true by decide) hknown (.inl rfl)
  exact ⟨hserver, h.trans hserver⟩

/-- **The bits that encode no modifier are lost**: they are depressed in the server state and
not in the client state. -/
theorem server_client_roundtrip_loses :
    (serverRun (updateDerivedKeymapFields realModsKeymap) .mixed
        [.updateKey 2 .down]).components.baseMods = 0x80000000#32 ∧
      (mirror (updateDerivedKeymapFields realModsKeymap)
        (xkbClientStateNew (updateDerivedKeymapFields realModsKeymap) .clientState)
        (serverRun (updateDerivedKeymapFields realModsKeymap) .mixed
          [.updateKey 2 .down]).components).components.baseMods = 0#32 := by
  decide +kernel

end Xkbcommon
