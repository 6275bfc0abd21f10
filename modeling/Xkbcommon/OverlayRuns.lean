import Xkbcommon.Overlays

/-!
# Runs of a machine with overlays

The overlays decide once: a key keeps its target until it is up again, whatever overlays
are switched meanwhile (`Xkbcommon.overlay_target_fixed`).

The invariant of a run (`Xkbcommon.OverlayInv`) joins the stack of the enabled overlays
with the table of the keys that are down, whose entries count the presses of their keys.
The public interface does not check that an overlay is one of the keymap format, and the
stack then overflows: `Xkbcommon.fitsFormat` is the condition.
-/

namespace Xkbcommon

open Masks Nibbles List Option BitVec

variable {keys : List XkbOverlaidKey} {k k' : KeyRef} {e : XkbOverlaidKey} {dir : KeyDirection}
  {kc : ℕ} {sm : XkbMachine} {l : List ℕ} {addr : KeyAddr} {km : XkbKeymap} {cs : List MachineCall}
  {builder : XkbMachineBuilder}

/-! ### Calls -/

/-- A call of a machine. -/
inductive MachineCall
  | processKey (kc : ℕ) (dir : KeyDirection)
  | processSynthetic (update : XkbStateUpdate) (events : XkbEvents)
  deriving DecidableEq, Repr

variable {c : MachineCall}

/-- The machine after a call; `none` if the target of an overlay is a null pointer. A request
that is refused leaves the machine as it is. -/
def MachineCall.exec (km : XkbKeymap) (sm : XkbMachine) : MachineCall → Option XkbMachine
  | .processKey kc dir => (xkbMachineProcessKey km sm kc dir).map Prod.fst
  | .processSynthetic update events =>
    match xkbMachineProcessSynthetic km sm update events with
    | .ok r => some r.1
    | .error _ => some sm

/-- A run of calls on a new machine. -/
def machineExec (km : XkbKeymap) (builder : XkbMachineBuilder) (cs : List MachineCall) :
    Option XkbMachine :=
  cs.foldl (fun sm c => sm.bind fun sm => c.exec km sm) (some (xkbMachineNew km builder))

/-- The key events of a run. -/
def keyEvents (cs : List MachineCall) : List (ℕ × KeyDirection) :=
  cs.filterMap fun
    | .processKey kc dir => some (kc, dir)
    | .processSynthetic _ _ => none

/-- The overlays that a run leaves enabled. -/
def enabledOverlays (km : XkbKeymap) (builder : XkbMachineBuilder) (cs : List MachineCall) :
    BitVec 8 :=
  match machineExec km builder cs with
  | none => 0#8
  | some sm => overlaysFromControls sm.base.components.controls

/-- **The overlays in the order in which a run enabled them**, the latest first. -/
def recentOverlays (km : XkbKeymap) (builder : XkbMachineBuilder) (cs : List MachineCall) :
    List ℕ :=
  (cs.inits.map (enabledOverlays km builder)).foldl recency []

/-- Every overlay that is enabled is one of the keymap format. -/
def fitsFormat (km : XkbKeymap) (sm : XkbMachine) : Bool :=
  overlaysFromControls sm.base.components.controls >>> formatMaxOverlays km.format == 0#8

/-- Every overlay of a key has a target. -/
def OverlayTargets (km : XkbKeymap) : Prop :=
  ∀ key ∈ km.keys, ∀ i < 8, key.overlays.getLsbD i = true →
    (derefKey km (overlayKey key i)).isSome = true

instance (km : XkbKeymap) : Decidable (OverlayTargets km) :=
  inferInstanceAs (Decidable (∀ key ∈ km.keys, ∀ i < 8, key.overlays.getLsbD i = true →
    (derefKey km (overlayKey key i)).isSome = true))

section Calls

theorem machineExec_append_singleton :
    machineExec km builder (cs ++ [c]) =
      (machineExec km builder cs).bind fun sm => c.exec km sm := by
  rw [machineExec, foldl_append]
  rfl

theorem keyEvents_append_singleton :
    keyEvents (cs ++ [c]) = keyEvents cs ++ keyEvents [c] := filterMap_append

theorem Matched.of_call (h : Matched (keyEvents (cs ++ [c]))) : Matched (keyEvents cs) := by
  rw [keyEvents_append_singleton] at h
  exact h.of_append

theorem lt_of_fitsFormat (h : fitsFormat km sm = true) {i : ℕ}
    (hi : (overlaysFromControls sm.base.components.controls).getLsbD i = true) :
    i < formatMaxOverlays km.format := by
  by_contra hge
  have hbit : (overlaysFromControls sm.base.components.controls >>>
      formatMaxOverlays km.format).getLsbD (i - formatMaxOverlays km.format) = true := by
    rw [getLsbD_ushiftRight, Nat.add_sub_cancel' (by omega), hi]
  rw [beq_iff_eq.mp h] at hbit
  simp at hbit

/-- The end of a call updates the stack, if the controls changed. -/
theorem StackOk.finishEvents {previous : StateComponents}
    (h : StackOk (overlaysFromControls previous.controls) sm.overlays l)
    (hfit : ∀ i ∈ l, i < formatMaxOverlays km.format) (queue : List XkbEvent) :
    StackOk (overlaysFromControls sm.base.components.controls)
      (finishEvents km previous sm queue).1.overlays
      (recency l (overlaysFromControls sm.base.components.controls)) := by
  have hexact := getStateComponentChanges_exact previous sm.base.components .controls
  simp only [Component.bit, Component.Differs] at hexact
  unfold Xkbcommon.finishEvents
  dsimp only
  by_cases hc : previous.controls = sm.base.components.controls
  · have hsame : StackOk (overlaysFromControls sm.base.components.controls) sm.overlays
        (recency l (overlaysFromControls sm.base.components.controls)) := by
      rw [← hc, recency_self h.mem]
      exact h
    split
    · exact hsame
    · rw [if_neg fun hbit => hexact.mp hbit hc]
      exact hsame
  · have hbit := hexact.mpr hc
    rw [if_neg, if_pos hbit]
    · exact h.update hfit
    · intro hzero
      rw [hzero, anyBit_zero_left] at hbit
      exact Bool.false_ne_true hbit

/-- What the end of a call keeps. -/
theorem finishEvents_keeps (km : XkbKeymap) (previous : StateComponents) (sm : XkbMachine)
    (queue : List XkbEvent) :
    (finishEvents km previous sm queue).1.base = sm.base ∧
      (finishEvents km previous sm queue).1.overlays.keys = sm.overlays.keys := by
  unfold Xkbcommon.finishEvents
  dsimp only
  split
  · exact ⟨rfl, rfl⟩
  · split <;> exact ⟨rfl, rfl⟩

/-- The stack after a call, given the stack before. -/
def StackStep (km : XkbKeymap) (sm sm' : XkbMachine) : Prop :=
  ∀ l, StackOk (overlaysFromControls sm.base.components.controls) sm.overlays l →
    (∀ i ∈ l, i < formatMaxOverlays km.format) →
    StackOk (overlaysFromControls sm'.base.components.controls) sm'.overlays
      (recency l (overlaysFromControls sm'.base.components.controls))

/-- The end of a call makes a step of the stack, if the rest of the call left the stack
alone. -/
theorem stackStep_finishEvents {sm₀ : XkbMachine} (horder : sm₀.overlays.order = sm.overlays.order)
    (henabled : sm₀.overlays.enabled = sm.overlays.enabled) {queue : List XkbEvent} :
    StackStep km sm (finishEvents km sm.base.components sm₀ queue).1 := by
  intro l hl hfit
  have hl₀ : StackOk (overlaysFromControls sm.base.components.controls) sm₀.overlays l :=
    ⟨horder ▸ hl.packs, henabled ▸ hl.enabled, hl.nodup, hl.mem⟩
  rw [(finishEvents_keeps km sm.base.components sm₀ queue).1]
  exact hl₀.finishEvents hfit queue

/-- **What a call does to the table**: a key event makes a turn of its key, if it has one in
an overlay; nothing else touches it. -/
inductive TableCall (km : XkbKeymap) (sm : XkbMachine) (keys : List XkbOverlaidKey) :
    MachineCall → Prop
  | synthetic (update : XkbStateUpdate) (events : XkbEvents) (hkeys : keys = sm.overlays.keys) :
      TableCall km sm keys (.processSynthetic update events)
  | ignored {kc : ℕ} {dir : KeyDirection} (hk : eventKey km kc dir = none)
      (hkeys : keys = sm.overlays.keys) : TableCall km sm keys (.processKey kc dir)
  | plain {kc : ℕ} {dir : KeyDirection} {k : KeyRef} (hk : keyOf km kc = some k)
      (hoverlays : k.key.overlays = 0#8) (hkeys : keys = sm.overlays.keys) :
      TableCall km sm keys (.processKey kc dir)
  | turn {kc : ℕ} {dir : KeyDirection} {k : KeyRef} (hk : keyOf km kc = some k)
      (hoverlays : k.key.overlays ≠ 0#8) {addr : KeyAddr}
      (hturn : TableTurn sm.overlays k dir keys addr) : TableCall km sm keys (.processKey kc dir)

/-- A key is not at the null address. -/
theorem addr_ne_null (hk : keyOf km kc = some k) : k.addr ≠ .null := by
  intro h
  have hderef := (keyOf_spec hk).2.2
  rw [h] at hderef
  exact absurd hderef (by simp [derefKey])

/-- The machine after a key is handled, in terms of the last part of the call. -/
theorem processResolvedKey_eq_finishEvents (overlays : MachineOverlays) :
    ∃ (sm₀ : XkbMachine) (queue : List XkbEvent), sm₀.overlays = overlays ∧
      (processResolvedKey km sm overlays k dir).1 =
        (finishEvents km sm.base.components sm₀ queue).1 := ⟨_, _, rfl, rfl⟩

/-- **A call for a key**: it is handled as the target, once the table has made its turn. -/
theorem exec_processKey (htable : TableOk sm.overlays.keys) (hk : eventKey km kc dir = some k)
    (hk' : derefKey km (overlaidKey sm.overlays k dir).2 = some k') :
    ∃ sm', (MachineCall.processKey kc dir).exec km sm = some sm' ∧ StackStep km sm sm' ∧
      TableOk sm'.overlays.keys ∧ TableCall km sm sm'.overlays.keys (.processKey kc dir) := by
  have hkey := keyOf_of_eventKey hk
  have hexec : (MachineCall.processKey kc dir).exec km sm =
      some (processResolvedKey km sm (overlaidKey sm.overlays k dir).1 k' dir).1 := by
    simp only [MachineCall.exec, xkbMachineProcessKey, hk, hk', map_some]
  obtain ⟨sm₀, queue, hoverlays₀, hfinish⟩ :=
    processResolvedKey_eq_finishEvents (overlaidKey sm.overlays k dir).1
  rw [hfinish] at hexec
  refine ⟨_, hexec, ?_⟩
  rw [(finishEvents_keeps km sm.base.components sm₀ queue).2, hoverlays₀]
  by_cases hoverlays : k.key.overlays = 0#8
  · have hplain : overlaidKey sm.overlays k dir = (sm.overlays, k.addr) := if_pos hoverlays
    rw [hplain] at hoverlays₀ ⊢
    refine ⟨stackStep_finishEvents ?_ ?_, htable, .plain hkey hoverlays rfl⟩ <;>
      rw [hoverlays₀]
  · have hprocess : overlaidKey sm.overlays k dir = processOverlayableKey sm.overlays k dir :=
      if_neg hoverlays
    obtain ⟨hturn, hok, horder, henabled⟩ :=
      tableTurn_processOverlayableKey htable (addr_ne_null hkey) dir
    rw [hprocess] at hoverlays₀ ⊢
    refine ⟨stackStep_finishEvents ?_ ?_, hok, .turn hkey hoverlays hturn⟩ <;>
      rwa [hoverlays₀]

/-- A request keeps the table. -/
theorem exec_processSynthetic (htable : TableOk sm.overlays.keys) (update : XkbStateUpdate)
    (events : XkbEvents) :
    ∃ sm', (MachineCall.processSynthetic update events).exec km sm = some sm' ∧
      StackStep km sm sm' ∧ TableOk sm'.overlays.keys ∧
      TableCall km sm sm'.overlays.keys (.processSynthetic update events) := by
  cases hfr : applyStateUpdate km ⟨sm.base, some events.queue⟩ update with
  | error e =>
    refine ⟨sm, ?_, fun l hl _ => ?_, htable, .synthetic update events rfl⟩
    · simp only [MachineCall.exec, xkbMachineProcessSynthetic, hfr, Except.map]
    · rwa [recency_self hl.mem]
  | ok fr =>
    have hkeeps := finishEvents_keeps km sm.base.components { sm with base := fr.state }
      (fr.events.getD [])
    have hexec : (MachineCall.processSynthetic update events).exec km sm =
        some (finishEvents km sm.base.components { sm with base := fr.state }
          (fr.events.getD [])).1 := by
      simp only [MachineCall.exec, xkbMachineProcessSynthetic, hfr, Except.map]
    refine ⟨_, hexec, stackStep_finishEvents ?_ ?_, ?_, .synthetic update events hkeeps.2⟩
    · rfl
    · rfl
    · rw [hkeeps.2]
      exact htable

end Calls

/-! ### The invariant of a run -/

/-- **The entries count their keys.** -/
def Counted (km : XkbKeymap) (es : List (ℕ × KeyDirection)) (keys : List XkbOverlaidKey) : Prop :=
  ∀ kc k, keyOf km kc = some k → k.key.overlays ≠ 0#8 →
    (∀ e, InTable keys e → e.old = k.addr → e.refcnt = depth es kc ∧ 0 < depth es kc) ∧
      (0 < depth es kc → ∃ e, InTable keys e ∧ e.old = k.addr)

/-- **The invariant of a run of calls.** -/
structure OverlayInv (km : XkbKeymap) (l : List ℕ) (es : List (ℕ × KeyDirection))
    (sm : XkbMachine) : Prop where
  stack : StackOk (overlaysFromControls sm.base.components.controls) sm.overlays l
  table : TableOk sm.overlays.keys
  target : ∀ e, InTable sm.overlays.keys e → (derefKey km e.new).isSome = true
  count : Counted km es sm.overlays.keys

theorem count_refcnt : (e.count dir).refcnt = dir.move.depth e.refcnt := by
  cases dir <;> rfl

theorem count_busy (h : e.old ≠ .null) :
    (e.count dir).busy = true ↔ 0 < dir.move.depth e.refcnt := by
  have hold : (e.count dir).old = if (e.count dir).refcnt ≤ 0 then .null else e.old := rfl
  rw [XkbOverlaidKey.busy, bne_iff_ne, hold, count_refcnt]
  split
  · simp only [ne_eq, not_true_eq_false, false_iff]
    omega
  · simp only [ne_eq, h, not_false_eq_true, true_iff]
    omega

section Run

variable {es : List (ℕ × KeyDirection)} {o : MachineOverlays}

/-- Keys of different keycodes are at different addresses. -/
theorem addr_ne_of_keycode_ne {kc' : ℕ} (hk : keyOf km kc = some k) (hk' : keyOf km kc' = some k')
    (hne : kc' ≠ kc) : k'.addr ≠ k.addr := by
  intro haddr
  obtain ⟨-, hkc, hderef⟩ := keyOf_spec hk
  obtain ⟨-, hkc', hderef'⟩ := keyOf_spec hk'
  rw [haddr, hderef] at hderef'
  obtain rfl := Option.some.inj hderef'
  exact hne (hkc'.symm.trans hkc)

/-- The entries of other keys are not affected by a turn. -/
theorem TableTurn.other (h : TableTurn o k dir keys addr) (he : e.old ≠ k.addr) :
    InTable keys e ↔ InTable o.keys e := by
  cases h with
  | held hmem hold htable =>
    rw [htable]
    constructor
    · rintro (⟨h, -⟩ | ⟨rfl, hb⟩)
      · exact h
      · exact absurd ((count_old hb).trans hold) he
    · exact fun h => .inl ⟨h, he⟩
  | first hnone htable =>
    rw [htable]
    constructor
    · rintro (h | rfl)
      · exact h
      · exact absurd rfl he
    · exact .inl
  | stray _ _ hkeys => rw [hkeys]

/-- **A turn of a key keeps the counts**, in a matched history. -/
theorem Counted.turn (h : Counted km es o.keys) (hk : keyOf km kc = some k)
    (hmatched : Matched (es ++ [(kc, dir)])) (hturn : TableTurn o k dir keys addr) :
    Counted km (es ++ [(kc, dir)]) keys := by
  intro kc' k' hk' hoverlays'
  obtain ⟨hcount, hentry⟩ := h kc' k' hk' hoverlays'
  by_cases hkc : kc' = kc
  · subst hkc
    obtain rfl := Option.some.inj (hk.symm.trans hk')
    have hnonneg := hmatched es (prefix_append ..) kc'
    have hnonneg' := hmatched _ (prefix_refl _) kc'
    have hzero (hnone : ∀ e, InTable o.keys e → e.old ≠ k.addr) : depth es kc' = 0 := by
      by_contra hne
      obtain ⟨e, he, hold⟩ := hentry (by omega)
      exact hnone e he hold
    rw [depth_append_self] at hnonneg' ⊢
    cases hturn with
    | held he hold htable =>
      rename_i e
      have hnull : e.old ≠ .null := hold ▸ addr_ne_null hk
      obtain ⟨hrefcnt, -⟩ := hcount e he hold
      constructor
      · intro e' he' hold'
        rcases (htable e').mp he' with ⟨-, hne⟩ | ⟨rfl, hb⟩
        · exact absurd hold' hne
        · rw [count_busy hnull, hrefcnt] at hb
          exact ⟨by rw [count_refcnt, hrefcnt], hb⟩
      · intro hpos
        have hb := (count_busy hnull).mpr (hrefcnt ▸ hpos)
        exact ⟨e.count dir, (htable _).mpr (.inr ⟨rfl, hb⟩), (count_old hb).trans hold⟩
    | first hnone htable =>
      rw [hzero hnone]
      refine ⟨fun e' he' hold' => ?_, fun _ => ⟨_, (htable _).mpr (.inr rfl), rfl⟩⟩
      rcases (htable e').mp he' with he' | rfl
      · exact absurd hold' (hnone e' he')
      · exact ⟨rfl, by decide⟩
    | stray hnone hdir hkeys =>
      refine ⟨fun e' he' hold' => absurd hold' (hnone e' (hkeys ▸ he')), fun hpos => ?_⟩
      rw [hzero hnone] at hpos
      cases dir with
      | down => exact absurd rfl hdir
      | up | repeated => cases hpos
  · have hne := addr_ne_of_keycode_ne hk hk' hkc
    rw [depth_append_of_ne hkc]
    constructor
    · intro e he hold
      exact hcount e ((hturn.other (hold ▸ hne)).mp he) hold
    · intro hpos
      obtain ⟨e, he, hold⟩ := hentry hpos
      exact ⟨e, (hturn.other (hold ▸ hne)).mpr he, hold⟩

/-- A call keeps the counts. -/
theorem Counted.call (h : Counted km (keyEvents cs) sm.overlays.keys)
    (hmatched : Matched (keyEvents (cs ++ [c]))) (hcall : TableCall km sm keys c) :
    Counted km (keyEvents (cs ++ [c])) keys := by
  rw [keyEvents_append_singleton] at hmatched ⊢
  cases hcall with
  | synthetic update events hkeys =>
    rw [hkeys]
    simpa [keyEvents] using h
  | @ignored kc dir hk hkeys =>
    intro kc' k' hk' hoverlays'
    have hdepth : depth (keyEvents cs ++ [(kc, dir)]) kc' = depth (keyEvents cs) kc' := by
      rw [← keyDepth_of_keyOf hk', keyDepth_append_ignored hk, keyDepth_of_keyOf hk']
    exact hkeys ▸ hdepth ▸ h kc' k' hk' hoverlays'
  | @plain kc dir k hk hoverlays hkeys =>
    intro kc' k' hk' hoverlays'
    have hkc : kc' ≠ kc := by
      rintro rfl
      obtain rfl := Option.some.inj (hk.symm.trans hk')
      exact hoverlays' hoverlays
    have hdepth : depth (keyEvents cs ++ [(kc, dir)]) kc' = _ := depth_append_of_ne hkc
    exact hkeys ▸ hdepth ▸ h kc' k' hk' hoverlays'
  | turn hk hoverlays hturn => exact h.turn hk hmatched hturn

/-- A key that stays down keeps the target of its entry. -/
theorem TableCall.persists (h : TableCall km sm keys c) (htable : TableOk sm.overlays.keys)
    (hk : keyOf km kc = some k) {e' : XkbOverlaidKey} (he : InTable sm.overlays.keys e)
    (hold : e.old = k.addr) (he' : InTable keys e') (hold' : e'.old = k.addr) : e'.new = e.new := by
  -- an entry that was in the table before is the same one
  have hsame : InTable sm.overlays.keys e' → e'.new = e.new := fun h =>
    congrArg XkbOverlaidKey.new (htable.eq h he (hold'.trans hold.symm))
  cases h with
  | synthetic _ _ hkeys | ignored _ hkeys | plain _ _ hkeys => exact hsame (hkeys ▸ he')
  | @turn kc₁ _ _ hk₁ _ _ hturn =>
    by_cases hkc : kc = kc₁
    · subst hkc
      obtain rfl := Option.some.inj (hk.symm.trans hk₁)
      cases hturn with
      | held he₁ hold₁ hmem =>
        rcases (hmem e').mp he' with ⟨hbefore, -⟩ | ⟨rfl, -⟩
        · exact hsame hbefore
        · rw [htable.eq he he₁ (hold.trans hold₁.symm)]
          rfl
      | first hnone | stray hnone => exact absurd hold (hnone e he)
    · have hne := addr_ne_of_keycode_ne hk₁ hk hkc
      exact hsame ((hturn.other (hold' ▸ hne)).mp he')

/-- The target of a key is a key. -/
theorem derefKey_recentTarget (htargets : OverlayTargets km) (hk : keyOf km kc = some k) :
    (derefKey km (recentTarget l k)).isSome = true := by
  obtain ⟨hmem, -, hderef⟩ := keyOf_spec hk
  unfold recentTarget
  split
  · rw [hderef, isSome_some]
  · rename_i i hi
    have hbit : k.key.overlays.getLsbD i = true := by simpa using find?_some hi
    exact htargets k.key hmem i (lt_of_getLsbD hbit) hbit

/-- The key that a call handles is not null. -/
theorem OverlayInv.derefKey_overlaidKey (h : OverlayInv km l es sm) (htargets : OverlayTargets km)
    (hk : keyOf km kc = some k) :
    (derefKey km (overlaidKey sm.overlays k dir).2).isSome = true := by
  have hderef : (derefKey km k.addr).isSome = true := by
    rw [(keyOf_spec hk).2.2, isSome_some]
  unfold overlaidKey
  split
  · exact hderef
  · have hturn := (tableTurn_processOverlayableKey h.table (addr_ne_null hk) dir).1
    generalize (processOverlayableKey sm.overlays k dir).2 = addr at hturn
    cases hturn with
    | held he => exact h.target _ he
    | first =>
      rw [h.stack.newTarget_eq]
      exact derefKey_recentTarget htargets hk
    | stray => exact hderef

/-- The targets in the table stay keys. -/
theorem OverlayInv.target_call (h : OverlayInv km l es sm) (htargets : OverlayTargets km)
    (hcall : TableCall km sm keys c) (he : InTable keys e) : (derefKey km e.new).isSome = true := by
  cases hcall with
  | synthetic _ _ hkeys | ignored _ hkeys | plain _ _ hkeys => exact h.target e (hkeys ▸ he)
  | turn hk _ hturn =>
    cases hturn with
    | @held _ _ e₁ he₁ _ hmem =>
      rcases (hmem e).mp he with ⟨hbefore, -⟩ | ⟨rfl, -⟩
      · exact h.target e hbefore
      · exact h.target e₁ he₁
    | first _ hmem =>
      rcases (hmem e).mp he with hbefore | rfl
      · exact h.target e hbefore
      · show (derefKey km (newTarget sm.overlays _)).isSome = true
        rw [h.stack.newTarget_eq]
        exact derefKey_recentTarget htargets hk
    | stray _ _ hkeys => exact h.target e (hkeys ▸ he)

/-- **A call keeps the invariant**, and returns. -/
theorem OverlayInv.call (htargets : OverlayTargets km)
    (h : OverlayInv km (recentOverlays km builder cs) (keyEvents cs) sm)
    (hrun : machineExec km builder cs = some sm) (hfit : fitsFormat km sm = true)
    (hmatched : Matched (keyEvents (cs ++ [c]))) :
    ∃ sm', machineExec km builder (cs ++ [c]) = some sm' ∧
      OverlayInv km (recentOverlays km builder (cs ++ [c])) (keyEvents (cs ++ [c])) sm' ∧
      TableCall km sm sm'.overlays.keys c := by
  obtain ⟨sm', hexec, hstack, htable, hcall⟩ : ∃ sm', c.exec km sm = some sm' ∧
      StackStep km sm sm' ∧ TableOk sm'.overlays.keys ∧ TableCall km sm sm'.overlays.keys c := by
    cases c with
    | processSynthetic update events => exact exec_processSynthetic h.table update events
    | processKey kc dir =>
      cases hk : eventKey km kc dir with
      | none =>
        refine ⟨sm, ?_, fun l hl _ => ?_, h.table, .ignored hk rfl⟩
        · simp only [MachineCall.exec, xkbMachineProcessKey, hk, map_some]
        · rwa [recency_self hl.mem]
      | some k =>
        obtain ⟨k', hk'⟩ := isSome_iff_exists.mp
          (h.derefKey_overlaidKey htargets (keyOf_of_eventKey hk))
        exact exec_processKey h.table hk hk'
  have hrun' : machineExec km builder (cs ++ [c]) = some sm' := by
    rw [machineExec_append_singleton, hrun, bind_some, hexec]
  have henabled : enabledOverlays km builder (cs ++ [c]) =
      overlaysFromControls sm'.base.components.controls := by
    rw [enabledOverlays, hrun']
  refine ⟨sm', hrun', ⟨?_, htable, fun e he => h.target_call htargets hcall he,
    h.count.call hmatched hcall⟩, hcall⟩
  have hrecent : recentOverlays km builder (cs ++ [c]) =
      recency (recentOverlays km builder cs) (enabledOverlays km builder (cs ++ [c])) := by
    simp [recentOverlays, inits_append]
  rw [hrecent, henabled]
  exact hstack _ h.stack fun i hi => lt_of_fitsFormat hfit ((h.stack.mem i).mp hi)

theorem overlayInv_new : OverlayInv km (recentOverlays km builder []) (keyEvents [])
    (xkbMachineNew km builder) := by
  have hcontrols : (xkbMachineNew km builder).base.components.controls = 0#32 := rfl
  have hzero : overlaysFromControls (xkbMachineNew km builder).base.components.controls = 0#8 := by
    rw [hcontrols]
    decide
  have hnil : recentOverlays km builder [] = [] := by
    show recency [] (enabledOverlays km builder []) = []
    rw [show enabledOverlays km builder [] = 0#8 from hzero]
    decide
  rw [hnil]
  refine ⟨⟨packs_zero, hzero.symm, nodup_nil, fun i => ?_⟩, ?_, ?_, ?_⟩
  · rw [hzero]
    simp
  · intro i j e e' he
    exact absurd he (by simp [xkbMachineNew, Slots.busyAt])
  · rintro e ⟨i, hi⟩
    exact absurd hi (by simp [xkbMachineNew, Slots.busyAt])
  · intro kc k _ _
    refine ⟨?_, fun h => absurd h (by simp [depth, keyEvents])⟩
    rintro e ⟨i, hi⟩
    exact absurd hi (by simp [xkbMachineNew, Slots.busyAt])

/-- The overlays that are enabled before each call of a run are those of the format. -/
def RunFits (km : XkbKeymap) (builder : XkbMachineBuilder) (cs : List MachineCall) : Prop :=
  Runs.History
    (fun pre _ => ∀ sm, machineExec km builder pre = some sm → fitsFormat km sm = true) cs

/-- **The invariant holds along every run.** -/
theorem overlayInv_machineExec (htargets : OverlayTargets km) (hmatched : Matched (keyEvents cs))
    (hfits : RunFits km builder cs) :
    ∃ sm, machineExec km builder cs = some sm ∧
      OverlayInv km (recentOverlays km builder cs) (keyEvents cs) sm := by
  induction cs using reverseRecOn with
  | nil => exact ⟨_, rfl, overlayInv_new⟩
  | append_singleton cs c ih =>
    obtain ⟨sm, hrun, hinv⟩ := ih hmatched.of_call hfits.of_append
    obtain ⟨sm', hrun', hinv', -⟩ := hinv.call htargets hrun (hfits.last sm hrun) hmatched
    exact ⟨sm', hrun', hinv'⟩

/-- A key that is down is handled as the target of its entry. -/
theorem overlaidKey_of_entry (htable : TableOk sm.overlays.keys) (hk : keyOf km kc = some k)
    (hoverlays : k.key.overlays ≠ 0#8) (he : InTable sm.overlays.keys e) (hold : e.old = k.addr) :
    (overlaidKey sm.overlays k dir).2 = e.new := by
  have hturn := (tableTurn_processOverlayableKey htable (addr_ne_null hk) dir).1
  rw [overlaidKey, if_neg hoverlays]
  generalize (processOverlayableKey sm.overlays k dir).2 = addr at hturn ⊢
  cases hturn with
  | held he₁ hold₁ => rw [htable.eq he he₁ (hold.trans hold₁.symm)]
  | first hnone | stray hnone => exact absurd hold (hnone e he)

/-- A key that was up has no entry, and is handled as the target in the overlay that was
enabled last. -/
theorem OverlayInv.overlaidKey_of_up (h : OverlayInv km l es sm) (hk : keyOf km kc = some k)
    (hup : depth es kc = 0) : (overlaidKey sm.overlays k .down).2 = recentTarget l k := by
  rw [← h.stack.newTarget_eq, overlaidKey]
  split
  · rename_i hzero
    rw [newTarget, hzero, zero_and, if_pos rfl]
  · rename_i hoverlays
    have hturn := (tableTurn_processOverlayableKey h.table (addr_ne_null hk) .down).1
    generalize (processOverlayableKey sm.overlays k .down).2 = addr at hturn ⊢
    cases hturn with
    | held he hold =>
      have := ((h.count kc k hk hoverlays).1 _ he hold).2
      omega
    | first => rfl
    | stray _ hdir => exact absurd rfl hdir

/-- The first press of a key makes its entry. -/
theorem OverlayInv.entry_of_press (h : OverlayInv km l es sm) (hk : keyOf km kc = some k)
    (hoverlays : k.key.overlays ≠ 0#8) (hup : depth es kc = 0)
    (hcall : TableCall km sm keys (.processKey kc .down)) :
    ∃ e, InTable keys e ∧ e.old = k.addr ∧ e.new = recentTarget l k := by
  cases hcall with
  | ignored hk' => exact absurd hk' (by simp [eventKey, hk])
  | plain hk' hzero =>
    obtain rfl := Option.some.inj (hk.symm.trans hk')
    exact absurd hzero hoverlays
  | turn hk' _ hturn =>
    obtain rfl := Option.some.inj (hk.symm.trans hk')
    cases hturn with
    | held he hold =>
      have := ((h.count kc k hk hoverlays).1 _ he hold).2
      omega
    | first _ hmem => exact ⟨_, (hmem _).mpr (.inr rfl), rfl, h.stack.newTarget_eq k⟩
    | stray _ hdir => exact absurd rfl hdir

/-- **The entry of a key stays**, with its target, as long as the key is down. -/
theorem entry_stays (htargets : OverlayTargets km) (hk : keyOf km kc = some k)
    (hoverlays : k.key.overlays ≠ 0#8) {pre mid : List MachineCall}
    (hup : depth (keyEvents pre) kc = 0) (hdown : ∀ mid', mid' <+: mid →
      0 < depth (keyEvents (pre ++ [.processKey kc .down] ++ mid')) kc)
    (hmatched : Matched (keyEvents (pre ++ [.processKey kc .down] ++ mid)))
    (hfits : RunFits km builder (pre ++ [.processKey kc .down] ++ mid))
    (hrun : machineExec km builder (pre ++ [.processKey kc .down] ++ mid) = some sm) :
    ∃ e, InTable sm.overlays.keys e ∧ e.old = k.addr ∧
      e.new = recentTarget (recentOverlays km builder pre) k := by
  induction mid using reverseRecOn generalizing sm with
  | nil =>
    rw [append_nil] at hmatched hfits hrun
    obtain ⟨sm₀, hrun₀, hinv₀⟩ := overlayInv_machineExec htargets hmatched.of_call hfits.of_append
    obtain ⟨sm', hrun', -, hcall⟩ := hinv₀.call htargets hrun₀ (hfits.last sm₀ hrun₀) hmatched
    obtain rfl := Option.some.inj (hrun'.symm.trans hrun)
    exact hinv₀.entry_of_press hk hoverlays hup hcall
  | append_singleton mid c ih =>
    rw [← List.append_assoc] at hmatched hfits hrun
    obtain ⟨sm₁, hrun₁, hinv₁⟩ := overlayInv_machineExec htargets hmatched.of_call hfits.of_append
    obtain ⟨e, he, hold, hnew⟩ := ih (fun mid' h => hdown mid' (h.trans (prefix_append _ _)))
      hmatched.of_call hfits.of_append hrun₁
    obtain ⟨sm', hrun', hinv', hcall⟩ := hinv₁.call htargets hrun₁ (hfits.last sm₁ hrun₁) hmatched
    obtain rfl := Option.some.inj (hrun'.symm.trans hrun)
    -- the key is still down, so it has an entry, and the call did not change its target
    have hpos := hdown (mid ++ [c]) (prefix_refl _)
    rw [← List.append_assoc] at hpos
    obtain ⟨e', he', hold'⟩ := (hinv'.count kc k hk hoverlays).2 hpos
    exact ⟨e', he', hold', (hcall.persists hinv₁.table hk he hold he' hold').trans hnew⟩

end Run

/-! ### The target of a key that is down -/

/-- A call for a key whose target is known. -/
theorem processKey_of_target (hk : eventKey km kc dir = some k)
    (haddr : (overlaidKey sm.overlays k dir).2 = addr) (hk' : derefKey km addr = some k') :
    xkbMachineProcessKey km sm kc dir =
      some (processResolvedKey km sm (overlaidKey sm.overlays k dir).1 k' dir) := by
  simp only [xkbMachineProcessKey, hk, haddr, hk', map_some]

/-- **The target of a key is fixed while the key is down**: every call for it is handled as
the target in the overlay that was enabled last when it was pressed first, whatever the
calls in between – in a keymap whose overlays have targets, as long as only overlays of its
format are enabled. -/
theorem overlay_target_fixed {km : XkbKeymap} (htargets : OverlayTargets km)
    (builder : XkbMachineBuilder) {kc : ℕ} {k : KeyRef} (hk : keyOf km kc = some k)
    {pre mid : List MachineCall} (hup : depth (keyEvents pre) kc = 0)
    (hdown : ∀ mid', mid' <+: mid →
      0 < depth (keyEvents (pre ++ [.processKey kc .down] ++ mid')) kc)
    (hmatched : Matched (keyEvents (pre ++ [.processKey kc .down] ++ mid)))
    (hfits : RunFits km builder (pre ++ [.processKey kc .down] ++ mid)) :
    ∃ sm₀ sm k', machineExec km builder pre = some sm₀ ∧
      machineExec km builder (pre ++ [.processKey kc .down] ++ mid) = some sm ∧
      derefKey km (recentTarget (recentOverlays km builder pre) k) = some k' ∧
      xkbMachineProcessKey km sm₀ kc .down = some (processResolvedKey km sm₀
        (overlaidKey sm₀.overlays k .down).1 k' .down) ∧
      ∀ dir, eventKey km kc dir = some k → xkbMachineProcessKey km sm kc dir =
        some (processResolvedKey km sm (overlaidKey sm.overlays k dir).1 k' dir) := by
  have hbefore : Matched (keyEvents pre) := by
    rw [List.append_assoc, keyEvents, filterMap_append] at hmatched
    exact hmatched.of_append
  have hfits' : RunFits km builder pre := by
    rw [List.append_assoc] at hfits
    exact hfits.of_append
  obtain ⟨sm₀, hrun₀, hinv₀⟩ := overlayInv_machineExec htargets hbefore hfits'
  obtain ⟨sm, hrun, hinv⟩ := overlayInv_machineExec htargets hmatched hfits
  obtain ⟨k', hk'⟩ := isSome_iff_exists.mp
    (derefKey_recentTarget htargets hk)
  refine ⟨sm₀, sm, k', hrun₀, hrun, hk', ?_, fun dir hdir => ?_⟩
  · exact processKey_of_target (by simp [eventKey, hk]) (hinv₀.overlaidKey_of_up hk hup) hk'
  · refine processKey_of_target hdir ?_ hk'
    by_cases hoverlays : k.key.overlays = 0#8
    · rw [overlaidKey, if_pos hoverlays, ← hinv₀.stack.newTarget_eq, newTarget, hoverlays,
        zero_and, if_pos rfl]
    · obtain ⟨e, he, hold, hnew⟩ :=
        entry_stays htargets hk hoverlays hup hdown hmatched hfits hrun
      rw [overlaidKey_of_entry hinv.table hk hoverlays he hold, hnew]

/-- Every overlay is one of the second format. -/
theorem runFits_textV2 (h : km.format = .textV2) : RunFits km builder cs := by
  intro pre c _ sm _
  rw [fitsFormat, h, beq_iff_eq]
  refine eq_of_getLsbD_eq fun i _ => ?_
  rw [getLsbD_ushiftRight, formatMaxOverlays, getLsbD_of_ge _ _ (by omega)]
  simp

/-- Enable or disable the overlays of a mask of controls. -/
def switchOverlays (affect controls : BitVec 32) : MachineCall :=
  .processSynthetic { components := some { affectControls := affect, controls := controls } } {}

/-- A key that is in two overlays, with the targets of the overlays. -/
def twoOverlaysKeymap : XkbKeymap where
  format := .textV2
  maxKeyCode := 2
  numKeysLow := 3
  keys := [{ overlays := 3#8, overlaysInline := false, overlaysKeys := [some 1, some 2] },
    { keycode := 1 }, { keycode := 2 }]

/-- The release of the key of `Xkbcommon.twoOverlaysKeymap` is handled as the target in the
second overlay, which was enabled last when the key was pressed and is disabled by then. -/
theorem overlay_target_fixed_release :
    ∃ sm k', machineExec twoOverlaysKeymap {}
        ([switchOverlays 2#32 2#32, switchOverlays 4#32 4#32] ++ [.processKey 0 .down] ++
          [switchOverlays 4#32 0#32, .processKey 1 .down]) = some sm ∧
      derefKey twoOverlaysKeymap (.key 2) = some k' ∧
      xkbMachineProcessKey twoOverlaysKeymap sm 0 .up = some (processResolvedKey twoOverlaysKeymap
        sm (overlaidKey sm.overlays ⟨.key 0, twoOverlaysKeymap.keys.head (by decide)⟩ .up).1 k'
        .up) := by
  have hdown : ∀ mid' ∈ [switchOverlays 4#32 0#32, .processKey 1 .down].inits, 0 < depth (keyEvents
      ([switchOverlays 2#32 2#32, switchOverlays 4#32 4#32] ++
        [.processKey 0 .down] ++ mid')) 0 := by
    decide
  have hmatched : Matched ([] ++ [(0, .down)] ++ [(1, .down)]) := by decide
  obtain ⟨sm₀, sm, k', -, hrun, hk', -, hup⟩ := overlay_target_fixed
    (show OverlayTargets twoOverlaysKeymap by decide) {}
    (show keyOf twoOverlaysKeymap 0 = some ⟨.key 0, twoOverlaysKeymap.keys.head (by decide)⟩ by
      decide)
    (by decide) (fun mid' h => hdown mid' ((mem_inits _ _).mpr h)) hmatched
    (runFits_textV2 rfl)
  have htarget : recentTarget (recentOverlays twoOverlaysKeymap {}
      [switchOverlays 2#32 2#32, switchOverlays 4#32 4#32])
      ⟨.key 0, twoOverlaysKeymap.keys.head (by decide)⟩ = .key 2 := by decide +kernel
  rw [htarget] at hk'
  exact ⟨sm, k', hrun, hk', hup .up (by decide)⟩

/-- A key of the first format that is in the first overlay, with its target. -/
def firstOverlayKeymap : XkbKeymap where
  format := .textV1
  maxKeyCode := 1
  numKeysLow := 2
  keys := [{ overlays := 1#8, overlaysKeys := [some 1] }, { keycode := 1 }]

/-- **A disabled overlay stays in the stack**: the first format has two overlays, so the third
nibble is not looked at when overlays are removed. -/
theorem overlay_stack_stale :
    (machineExec firstOverlayKeymap {} [switchOverlays 0xe#32 0xe#32, switchOverlays 2#32 0#32]).map
      (fun sm => (sm.overlays.order, sm.overlays.enabled)) = some (0x123#32, 6#8) := by
  decide +kernel

/-- Enable the first overlay and then overlays that the first format does not have, two of
them twice. -/
def crowdedCalls : List MachineCall :=
  [switchOverlays 0x002#32 0x002#32, switchOverlays 0x1f8#32 0x1f8#32,
    switchOverlays 0x040#32 0x000#32, switchOverlays 0x040#32 0x040#32,
    switchOverlays 0x080#32 0x000#32, switchOverlays 0x080#32 0x080#32]

/-- **An enabled overlay is pushed out of the stack**: the key is handled as itself, although
its overlay is enabled. -/
theorem overlay_target_lost :
    OverlayTargets firstOverlayKeymap ∧
      recentTarget (recentOverlays firstOverlayKeymap {} crowdedCalls)
        ⟨.key 0, firstOverlayKeymap.keys.head (by decide)⟩ = .key 1 ∧
      ((machineExec firstOverlayKeymap {} crowdedCalls).bind fun sm =>
        (xkbMachineProcessKey firstOverlayKeymap sm 0 .down).map fun r => r.2.queue) =
          some [.key .down 0] := by
  decide +kernel

end Xkbcommon
