import Xkbcommon.Stream

/-!
# The companion state of a machine

A client that cannot run the machine keeps a *companion* of its state and feeds it the
events of each batch. This file proves that the companion has the components of the
machine after a key event exactly if no redirection of the event is stale, or if the event changes
the components in the end: the last event then repairs what a stale redirection has told
(`Xkbcommon.processKey_companion_iff`). It also says when the masks of the events are exact
(`Xkbcommon.keyEvent_changes_exact`).
-/

namespace Xkbcommon

open Masks List Option XkbFilter FilterFunc

variable {previous heard : StateComponents} {fr : Frame} {dir : KeyDirection} {sm : XkbMachine}
  {k : KeyRef} {a : XkbAction} {i : ℕ} (km : XkbKeymap) {state : XkbState} {fr' : Frame}
  {exact told fresh : Prop} {key : XkbKey} {f : XkbFilter} {func : FilterFunc}

/-! ### The redirections of an event -/

/-- A filter is no redirection of the key, or one that is not stale. -/
def FreshFilter (previous : StateComponents) (k : KeyRef) (fr : Frame) (f : XkbFilter) : Prop :=
  f.func = some .redirectKey → k.addr = f.key → ¬Stale previous fr f.action.redirect

/-- An action starts no redirection, or one that is not stale. -/
def FreshAction (previous : StateComponents) (fr : Frame) (a : XkbAction) : Prop :=
  a.type = .redirectKey → a.redirect.keycode ≠ xkbKeycodeInvalid →
    ¬Stale previous fr (resolveAction km fr.state a).redirect

/-- **No redirection of an event is stale**: in no turn of the loop over the filters, and for no
action of the level of the key, if they are started. -/
structure FreshRun (previous : StateComponents) (fr : Frame) (k : KeyRef) (dir : KeyDirection) :
    Prop where
  filters : ∀ n < 3 * fr.state.filters.length, ∀ f,
    (frameBefore km k dir fr n).state.filters[n]? = some f →
      FreshFilter previous k (frameBefore km k dir fr n) f
  actions : ∀ fr' consumed, runFilters (clearAllLatchesAndLocks km) k dir
      (3 * fr.state.filters.length) 0 fr false = (fr', consumed) →
    (consumed || dir == .up) = false → ∀ before a,
      before ++ [a] <+: xkbKeyGetActions fr'.state.toXkbState k.key →
        FreshAction km previous (before.foldl (startAction km k) fr') a

/-- **What a listener has heard, as far as an event has run**: what it knew before, if no
redirection was stale; otherwise something else, and nothing had been announced at first. -/
def Track (exact told : Prop) (previous heard : StateComponents) (fresh : Prop) (fr : Frame) :
    Prop :=
  (fresh ∧ Heard exact told previous heard fr) ∨
    (¬fresh ∧ ¬told ∧ ∃ c, c ≠ previous ∧ Heard False True previous c fr)

/-- One step of an event that may append a redirection, or leaves the queue alone. -/
theorem Track.step (calls : Prop) (redirect : RedirectKeyAction)
    (h : Track exact told previous heard fresh fr)
    (hevents : (¬calls ∧ fr'.events = fr.events) ∨
      (calls ∧ ∃ dir, fr'.events = (fr.appendRedirect redirect dir).events)) :
    Track exact told previous heard (fresh ∧ (calls → ¬Stale previous fr redirect)) fr' := by
  have hkeep : ∀ {exact told heard}, (calls → ¬Stale previous fr redirect) →
      Heard exact told previous heard fr → Heard exact told previous heard fr' := by
    intro exact told heard hfresh hheard
    obtain ⟨-, heq⟩ | ⟨hcalls, dir, heq⟩ := hevents
    · exact hheard.of_events heq
    · exact (hheard.appendRedirect (hfresh hcalls) dir).of_events heq
  rcases h with ⟨hfresh, hheard⟩ | ⟨hstale, htold, c, hne, hheard⟩
  · by_cases hnext : calls → ¬Stale previous fr redirect
    · exact .inl ⟨⟨hfresh, hnext⟩, hkeep hnext hheard⟩
    · obtain ⟨hcalls, hstale⟩ := Classical.not_imp.mp hnext
      rw [not_not] at hstale
      obtain ⟨dir, heq⟩ := (hevents.resolve_left fun h => h.1 hcalls).2
      exact .inr ⟨fun h => hnext h.2, hstale.not_told hheard, _, hstale.written,
        (hstale.appendRedirect hheard dir).of_events heq⟩
  · refine .inr ⟨fun h => hstale h.1, htold, c, hne, hkeep ?_ hheard⟩
    exact fun _ hstale => hstale.not_told hheard trivial

theorem Track.congr {fresh' : Prop} (h : Track exact told previous heard fresh fr)
    (hiff : fresh ↔ fresh') : Track exact told previous heard fresh' fr := by
  rwa [← propext hiff]

/-- One turn of the loop over the filters. -/
theorem Track.turn (hok : SlotsOk fr) (hfunc : f.func = some func)
    (h : Track exact told previous heard fresh fr) :
    Track exact told previous heard (fresh ∧ FreshFilter previous k fr f)
      ((func.call (clearAllLatchesAndLocks km) fr f k dir).store i) := by
  refine (h.step (f.func = some .redirectKey ∧ k.addr = f.key) f.action.redirect ?_).congr
    (and_congr_right fun _ => and_imp)
  show (_ ∧ (func.call (clearAllLatchesAndLocks km) fr f k dir).frame.events = _) ∨
    _ ∧ ∃ _, (func.call (clearAllLatchesAndLocks km) fr f k dir).frame.events = _
  by_cases hr : func = .redirectKey
  · subst hr
    obtain ⟨hkey, heq⟩ | ⟨hkey, dir', heq⟩ := redirectKey_call fr f k dir
    · exact .inl ⟨fun h => hkey h.2, congrArg Frame.events heq⟩
    · exact .inr ⟨⟨hfunc, hkey⟩, dir', congrArg Frame.events heq⟩
  · refine .inl ⟨fun h => hr ?_, events_call km hok hr⟩
    exact Option.some.inj (hfunc.symm.trans h.1)

/-- The loop over the filters. -/
theorem Track.loop (hok : SlotsOk fr) (hk : k.addr.canHold = true)
    (h : Track exact told previous heard True fr) (dir : KeyDirection) (n : ℕ) :
    Track exact told previous heard (∀ j < n, ∀ f,
      (frameBefore km k dir fr j).state.filters[j]? = some f →
        FreshFilter previous k (frameBefore km k dir fr j) f) (frameBefore km k dir fr n) := by
  induction n with
  | zero => exact h.congr (iff_of_true trivial (by simp))
  | succ n ih =>
    obtain ⟨heq, hfree⟩ | ⟨f, func, hf, hfunc, heq⟩ := frameBefore_succ km n
    · rw [heq]
      refine ih.congr ?_
      rw [Nat.forall_lt_succ_right]
      refine (and_iff_left ?_).symm
      intro f hf hfunc
      rw [hfree f hf] at hfunc
      cases hfunc
    · rw [heq]
      refine (ih.turn km (slotsOk_frameBefore hok hk n) hfunc).congr ?_
      rw [Nat.forall_lt_succ_right, hf]
      simp only [Option.some.injEq, forall_eq']

/-- One action. -/
theorem Track.startAction (h : Track exact told previous heard fresh fr) :
    Track exact told previous heard (fresh ∧ FreshAction km previous fr a)
      (startAction km k fr a) := by
  refine (h.step (a.type = .redirectKey ∧ a.redirect.keycode ≠ xkbKeycodeInvalid)
    (resolveAction km fr.state a).redirect ?_).congr (and_congr_right fun _ => and_imp)
  rw [startAction_eq]
  split
  · rename_i hnone
    refine .inl ⟨?_, rfl⟩
    rintro ⟨htype, -⟩
    simp [resolveAction, htype, XkbActionType.filterFunc] at hnone
  · rename_i func hfunc
    obtain ⟨f₀, -, haction, -, -, heq⟩ := startFilter_eq fr k.addr func
    rw [heq]
    show (_ ∧ (func.start fr f₀).1.events = _) ∨ _ ∧ ∃ _, (func.start fr f₀).1.events = _
    by_cases hr : func = .redirectKey
    · subst hr
      obtain ⟨htype, hkeycode⟩ := resolveAction_redirectKey hfunc
      by_cases hvalid : a.redirect.keycode = xkbKeycodeInvalid
      · refine .inl ⟨fun h => h.2 hvalid, ?_⟩
        simp [start, xkbFilterRedirectKeyNew, haction, hkeycode, hvalid]
      · refine .inr ⟨⟨htype, hvalid⟩, .down, ?_⟩
        cases hev : fr.events with
        | none => simp [start, xkbFilterRedirectKeyNew, Frame.appendRedirect, hev]
        | some queue =>
          simp [start, xkbFilterRedirectKeyNew, Frame.appendRedirect, hev, haction, hkeycode,
            hvalid]
    · refine .inl ⟨?_, local_start.events hr⟩
      rintro ⟨htype, -⟩
      simp [resolveAction, htype, XkbActionType.filterFunc] at hfunc
      exact hr hfunc.symm

/-- The loop over the actions. -/
theorem Track.actions (h : Track exact told previous heard fresh fr) (l : List XkbAction) :
    Track exact told previous heard (fresh ∧ ∀ before a, before ++ [a] <+: l →
      FreshAction km previous (before.foldl (Xkbcommon.startAction km k) fr) a)
      (l.foldl (Xkbcommon.startAction km k) fr) := by
  induction l using reverseRecOn with
  | nil => exact h.congr (and_iff_left fun before a hpre => by simp at hpre).symm
  | append_singleton l x ih =>
    rw [foldl_append, foldl_cons, foldl_nil]
    refine (ih.startAction km).congr ?_
    rw [and_assoc]
    refine and_congr_right fun _ => ⟨fun ⟨hl, hx⟩ before a hpre => ?_, fun h => ⟨?_, ?_⟩⟩
    · rcases prefix_concat_iff.mp hpre with heq | hpre
      · obtain ⟨rfl, rfl⟩ := append_singleton_inj.mp heq
        exact hx
      · exact hl before a hpre
    · exact fun before a hpre => h before a (hpre.trans (prefix_append _ _))
    · exact h l x (prefix_refl _)

/-- **What a listener hears of the filters of an event.** -/
theorem track_applyAll (hok : SlotsOk fr) (hk : k.addr.canHold = true)
    (h : Heard exact told previous heard fr) (dir : KeyDirection) :
    Track exact told previous heard (FreshRun km previous fr k dir)
      (xkbFilterApplyAll km fr k dir) := by
  have hloop := Track.loop km hok hk (.inl ⟨trivial, h⟩) dir (3 * fr.state.filters.length)
  unfold xkbFilterApplyAll xkbFilterApplyAllWith
  unfold frameBefore at hloop
  generalize hrun : runFilters (clearAllLatchesAndLocks km) k dir (3 * fr.state.filters.length) 0 fr
    false = r at hloop ⊢
  obtain ⟨fr', consumed⟩ := r
  dsimp only at hloop ⊢
  split
  · rename_i hstop
    refine hloop.congr ⟨fun hf => ⟨hf, fun fr'' c' heq hc => ?_⟩, fun h => h.filters⟩
    cases hrun.symm.trans heq
    exact absurd hstop (by simp [hc])
  · rename_i hgo
    refine (hloop.actions km _).congr
      ⟨fun h => ⟨h.1, fun fr'' c' heq _ => ?_⟩, fun h => ⟨h.filters, ?_⟩⟩
    · cases hrun.symm.trans heq
      exact h.2
    · exact h.actions fr' consumed hrun (by simpa using hgo)

/-! ### Tweaks -/

/-- **The tweaks report an exact change**: the state is the one before the call, or no modifiers
are remapped, or the shortcuts report in their place. -/
def RemapExact (config : MachineConfig) (previous : StateComponents) (state : XkbState)
    (key : XkbKey) : Prop :=
  state.components = previous ∨
    ∀ affect mods, remappedModifiers config.modifiers state key = some (affect, mods) →
      remapComponents km state affect mods = state.components ∨
        (shortcutTarget config.shortcuts
          { state.components with
            mods := (remapComponents km state affect mods).mods }).isSome = true

/-- **What the tweaks do**: nothing, or they announce one set of components. -/
theorem doTweaks_cases (config : MachineConfig) (state : XkbState) :
    doTweaks km config previous state [] key = ⟨state, [], none⟩ ∨
    ∃ c changed state' i, doTweaks km config previous state [] key =
        ⟨state', [.componentsChange c changed], some i⟩ ∧
      (RemapExact km config previous state key → Exact changed previous c) := by
  -- the modifiers first: they are remapped, or nothing happens
  have hremap : doRemapModifiers km config.modifiers state [] key = ⟨state, [], none⟩ ∨
      ∃ affect mods, remappedModifiers config.modifiers state key = some (affect, mods) ∧
        remapComponents km state affect mods ≠ state.components ∧
        doRemapModifiers km config.modifiers state [] key =
          ⟨{ state with components.mods := (remapComponents km state affect mods).mods },
            [.componentsChange (remapComponents km state affect mods) (getStateComponentChanges
              state.components (remapComponents km state affect mods))], some 0⟩ := by
    unfold doRemapModifiers
    split
    · exact .inl rfl
    · rename_i affect mods hmods
      dsimp only
      split
      · rename_i hzero
        rw [getStateComponentChanges_eq_zero_iff] at hzero
        left
        rw [← hzero]
      · rename_i hzero
        rw [getStateComponentChanges_eq_zero_iff] at hzero
        exact .inr ⟨affect, mods, hmods, fun heq => hzero heq.symm, rfl⟩
  unfold doTweaks doShortcutsTweak
  rcases hremap with heq | ⟨affect, mods, hmods, hne, heq⟩
  · rw [heq]
    dsimp only
    split
    · exact .inl rfl
    · exact .inr ⟨_, _, _, _, rfl, fun _ => getStateComponentChanges_exact _ _⟩
  · rw [heq]
    dsimp only
    right
    split
    · rename_i hnone
      refine ⟨_, _, _, _, rfl, ?_⟩
      rintro (rfl | h)
      · exact getStateComponentChanges_exact _ _
      · rcases h affect mods hmods with hsame | htarget
        · exact absurd hsame hne
        · rw [hnone] at htarget
          cases htarget
    · exact ⟨_, _, _, _, rfl, fun _ => getStateComponentChanges_exact _ _⟩

/-! ### Key events of a machine -/

/-- The key event itself is no news about the components. -/
theorem appendKeyEvent_eq (queue : List XkbEvent) (dir : KeyDirection) (kc : ℕ) :
    ∃ tail, appendKeyEvent queue dir kc = queue ++ tail ∧
      ∀ c, ExactFrom c tail ∧ replay c tail = c := by
  unfold appendKeyEvent
  split
  · exact ⟨[], (append_nil _).symm, fun c => ⟨trivial, rfl⟩⟩
  · exact ⟨_, rfl, fun c => ⟨trivial, rfl⟩⟩

/-- **Undoing the tweaks settles the stream.** -/
theorem undoTweaks_replay (previous : StateComponents) (queue : List XkbEvent) :
    replay previous (undoTweaks previous queue) = previous ∧
      (ExactFrom previous queue → ExactFrom previous (undoTweaks previous queue)) := by
  unfold undoTweaks
  rw [lastComponents_eq_replay]
  dsimp only
  split
  · rename_i hzero
    rw [getStateComponentChanges_eq_zero_iff] at hzero
    exact ⟨hzero.symm, id⟩
  · rw [replay_append, exactFrom_append]
    refine ⟨rfl, fun h => ⟨h, ?_, trivial⟩⟩
    rw [getStateComponentChanges_comm]
    exact getStateComponentChanges_exact _ _

/-- The frame in which the filters of a key event run: the sticky keys may have been deactivated,
and the tweaks are made. -/
def keyFrame (km : XkbKeymap) (sm : XkbMachine) (k : KeyRef) (dir : KeyDirection) : Frame :=
  let fr := autoDisableStickyKeys km ⟨sm.base, some []⟩ dir
  let tweak := doTweaks km sm.config sm.base.components fr.state.toXkbState [] k.key
  Frame.resetMasks ⟨{ fr.state with toXkbState := tweak.state }, some tweak.queue⟩

/-- **The redirections of a key event are fresh**: none is stale when it is announced. -/
def RedirectsFresh (km : XkbKeymap) (sm : XkbMachine) (k : KeyRef) (dir : KeyDirection) : Prop :=
  FreshRun km sm.base.components (keyFrame km sm k dir) k dir

/-- The tweaks of a key event report an exact change. -/
def TweaksExact (km : XkbKeymap) (sm : XkbMachine) (k : KeyRef) (dir : KeyDirection) : Prop :=
  RemapExact km sm.config sm.base.components
    (autoDisableStickyKeys km ⟨sm.base, some []⟩ dir).state.toXkbState k.key

/-- **The stream of a key event up to the last event**: a listener has heard nothing else in the
end exactly if the redirections are fresh. -/
theorem processKeyEvents_replay_iff (hok : FiltersOk sm.base) (hk : k.addr.canHold = true)
    (dir : KeyDirection) (hfr : autoDisableStickyKeys km ⟨sm.base, some []⟩ dir = fr) :
    ∃ queue,
      (processKeyEvents km sm.config sm.base.components fr.state (fr.events.getD []) k dir).2 =
        queue ∧
      (replay sm.base.components queue = sm.base.components ↔ RedirectsFresh km sm k dir) ∧
      (RedirectsFresh km sm k dir → TweaksExact km sm k dir →
        ExactFrom sm.base.components queue) := by
  have hok₀ : SlotsOk ⟨sm.base, some []⟩ := hok
  have heffect := autoDisableStickyKeys_effect km hok₀ dir
  rw [hfr] at heffect
  have hev : fr.events = some [] := heffect.masks.events
  refine ⟨_, rfl, ?_⟩
  unfold RedirectsFresh TweaksExact keyFrame processKeyEvents
  simp only [hfr, hev, getD_some]
  have hevents : ∀ fr, (handleKey km fr k dir).events =
      (xkbFilterApplyAll km fr.resetMasks k dir).events := fun _ => rfl
  rcases doTweaks_cases km sm.config fr.state.toXkbState with
    ht | ⟨c, changed, state', i, ht, hexact⟩
  · -- nothing was announced before
    rw [ht]
    dsimp only
    have hok₁ : SlotsOk (Frame.resetMasks ⟨fr.state, some []⟩) := heffect.slotsOk
    have hstart : Heard True False sm.base.components sm.base.components
        (Frame.resetMasks ⟨fr.state, some []⟩) := ⟨[], rfl, rfl, False.elim, fun _ => trivial⟩
    rcases track_applyAll km hok₁ hk hstart dir with
      ⟨hfresh, queue, hq, hreplay, -, hexact⟩ | ⟨hstale, -, c, hne, queue, hq, hreplay, -⟩
    · obtain ⟨tail, heq, htail⟩ := appendKeyEvent_eq queue dir k.key.keycode
      simp only [hevents, hq, getD_some, heq, isSome_none, Bool.false_eq_true, if_false,
        replay_append, exactFrom_append, hreplay]
      exact ⟨iff_of_true (htail _).2 hfresh, fun _ _ => ⟨hexact trivial, (htail _).1⟩⟩
    · obtain ⟨tail, heq, htail⟩ := appendKeyEvent_eq queue dir k.key.keycode
      simp only [hevents, hq, getD_some, heq, isSome_none, Bool.false_eq_true, if_false,
        replay_append, hreplay, (htail c).2]
      exact ⟨iff_of_false hne hstale, fun h => absurd h hstale⟩
  · -- the tweaks have announced a reference, and are undone at the end
    rw [ht]
    dsimp only
    have hok₁ : SlotsOk (Frame.resetMasks ⟨{ fr.state with toXkbState := state' },
      some [.componentsChange c changed]⟩) := heffect.slotsOk
    have hstart : Heard (RemapExact km sm.config sm.base.components fr.state.toXkbState k.key) True
        sm.base.components c (Frame.resetMasks ⟨{ fr.state with toXkbState := state' },
          some [.componentsChange c changed]⟩) :=
      ⟨_, rfl, rfl, fun _ => ⟨c, changed, mem_singleton_self _⟩, fun h => ⟨hexact h, trivial⟩⟩
    obtain ⟨hfresh, queue, hq, -, -, hexact'⟩ := (track_applyAll km hok₁ hk
      hstart dir).resolve_right fun h => h.2.1 trivial
    obtain ⟨tail, heq, htail⟩ := appendKeyEvent_eq queue dir k.key.keycode
    simp only [hevents, hq, getD_some, heq, isSome_some, if_true]
    obtain ⟨hreplay, hundo⟩ := undoTweaks_replay sm.base.components (queue ++ tail)
    refine ⟨iff_of_true hreplay hfresh, fun _ h => hundo ?_⟩
    rw [exactFrom_append]
    exact ⟨hexact' h, (htail _).1⟩

/-- **The stream of a key event**: it ends with the components of the machine exactly if the
redirections are fresh or the components have changed. -/
theorem processResolvedKey_stream (hok : FiltersOk sm.base) (hk : k.addr.canHold = true)
    (overlays : MachineOverlays) (dir : KeyDirection) :
    (replay sm.base.components (processResolvedKey km sm overlays k dir).2.queue =
        (processResolvedKey km sm overlays k dir).1.base.components ↔
      RedirectsFresh km sm k dir ∨
        (processResolvedKey km sm overlays k dir).1.base.components ≠ sm.base.components) ∧
      (RedirectsFresh km sm k dir → TweaksExact km sm k dir →
        ExactFrom sm.base.components (processResolvedKey km sm overlays k dir).2.queue) := by
  obtain ⟨queue, hq, hreplay, hexact⟩ := processKeyEvents_replay_iff km hok hk dir rfl
  simp only [processResolvedKey, finishEvents_queue, finishEvents_base, hq, replay_append,
    exactFrom_append]
  generalize (processKeyEvents km sm.config sm.base.components _ _ k dir).1.components = new
  unfold changeEvents
  by_cases heq : sm.base.components = new
  · subst heq
    simp only [if_true, replay_nil, hreplay, ne_eq, not_true_eq_false, or_false, true_and]
    exact fun h h' => ⟨hexact h h', trivial⟩
  · simp only [if_neg heq, replay_componentsChange, replay_nil, Ne.symm heq, ne_eq,
      not_false_eq_true, or_true, true_and]
    refine fun h h' => ⟨hexact h h', ?_, trivial⟩
    rw [hreplay.mpr h]
    exact getStateComponentChanges_exact _ _

/-- The key that a machine handles for a key event: the overlays may put another one in
its place. -/
def handledKey (km : XkbKeymap) (sm : XkbMachine) (kc : ℕ) (dir : KeyDirection) : Option KeyRef :=
  (eventKey km kc dir).bind fun k => derefKey km (overlaidKey sm.overlays k dir).2

/-- The stream of `xkb_machine_process_key`, for a reachable machine. -/
theorem processKey_stream {km : XkbKeymap} {sm' : XkbMachine} (h : MachineReachable km sm) {kc : ℕ}
    {events : XkbEvents} (hp : xkbMachineProcessKey km sm kc dir = some (sm', events)) :
    (replay sm.base.components events.queue = sm'.base.components ↔
      (∀ k, handledKey km sm kc dir = some k → RedirectsFresh km sm k dir) ∨
        sm'.base.components ≠ sm.base.components) ∧
      ((∀ k, handledKey km sm kc dir = some k →
        RedirectsFresh km sm k dir ∧ TweaksExact km sm k dir) →
          ExactFrom sm.base.components events.queue) := by
  obtain ⟨hnone, rfl, rfl⟩ | ⟨k, k', hk, hk', heq⟩ := xkbMachineProcessKey_cases hp
  · have hno : ∀ k, handledKey km sm' kc dir ≠ some k := by simp [handledKey, hnone]
    exact ⟨iff_of_true rfl (.inl fun k hk => absurd hk (hno k)), fun _ => trivial⟩
  · have hkey : handledKey km sm kc dir = some k' := by
      rw [handledKey, hk, bind_some, hk']
    have hstream := processResolvedKey_stream km h.filtersOk (canHold_of_derefKey hk')
      (overlaidKey sm.overlays k dir).1 dir
    rw [heq] at hstream
    simp only [hkey, Option.some.injEq, forall_eq']
    exact ⟨hstream.1, fun h => hstream.2 h.1 h.2⟩

/-- A companion that is fed events. -/
def feedEvents (state : XkbState) (events : List XkbEvent) : XkbState :=
  events.foldl (fun state event => (xkbStateUpdateEvent state event).1) state

/-- A companion follows the announcements. -/
theorem feedEvents_components
    (hmode : state.mode = .serverCompanion ∨ state.mode = .legacyMixedState)
    (events : List XkbEvent) :
    (feedEvents state events).components = replay state.components events := by
  induction events generalizing state with
  | nil => rfl
  | cons event events ih =>
    cases event with
    | key dir kc => exact ih hmode
    | componentsChange c changed =>
      have hstep : (xkbStateUpdateEvent state (.componentsChange c changed)).1 =
          { state with components := c } := by
        simp only [xkbStateUpdateEvent, if_pos hmode]
      rw [feedEvents, foldl_cons, hstep]
      exact ih hmode

/-- **The companion stays in sync** – after a key event of a reachable machine, a companion that had
the components of the machine and was fed the batch has the components of the machine – exactly if
the redirections of the event are fresh, or if the event changes the components: the last event
of the batch then tells the listener all of them. -/
theorem processKey_companion_iff {km : XkbKeymap} {sm sm' : XkbMachine} (h : MachineReachable km sm)
    {kc : ℕ} {dir : KeyDirection} {events : XkbEvents}
    (hp : xkbMachineProcessKey km sm kc dir = some (sm', events))
    {state : XkbState} (hmode : state.mode = .serverCompanion ∨ state.mode = .legacyMixedState)
    (hstate : state.components = sm.base.components) :
    (feedEvents state events.queue).components = sm'.base.components ↔
      (∀ k, handledKey km sm kc dir = some k → RedirectsFresh km sm k dir) ∨
        sm'.base.components ≠ sm.base.components := by
  rw [feedEvents_components hmode, hstate]
  exact (processKey_stream h hp).1

/-- A redirection to another key with an override of the first modifier. -/
def redirectFirstMod : XkbAction where
  type := .redirectKey
  redirect := { keycode := 1, affect := 1#32, mods := 1#32 }

/-- A key that redirects, and one that also locks the next layout before it does. -/
def redirectKeymap : XkbKeymap where
  maxKeyCode := 1
  numKeysLow := 2
  keys := [oneLevelKey 0 [redirectFirstMod],
    oneLevelKey 1 [{ type := .groupLock, group := { group := 1#32 } }, redirectFirstMod]]

/-- The companion of a new machine. -/
def newCompanion (km : XkbKeymap) (builder : XkbMachineBuilder) : XkbState where
  components := (xkbMachineNew km builder).base.components
  mode := .serverCompanion

/-- In a machine without filters, an action that is alone redirects afresh. -/
theorem redirectsFresh_single (hfilters : (keyFrame km sm k dir).state.filters = [])
    (hc : (keyFrame km sm k dir).state.components = sm.base.components)
    (hactions : xkbKeyGetActions (keyFrame km sm k dir).state.toXkbState k.key = [a]) :
    RedirectsFresh km sm k dir := by
  refine ⟨fun n hn => ?_, fun fr' c hrun _ before a' hpre _ _ hstale => ?_⟩
  · simp [hfilters] at hn
  · rw [hfilters] at hrun
    cases hrun
    rw [hactions] at hpre
    obtain ⟨rfl, -⟩ : before = [] ∧ a' = a := by
      simpa [prefix_cons_iff, append_eq_cons_iff] using hpre
    exact hstale.written hc

/-- The press of the key that redirects. -/
theorem processKey_companion_iff_redirect :
    ∃ sm' events, xkbMachineProcessKey redirectKeymap (xkbMachineNew redirectKeymap {}) 0 .down =
        some (sm', events) ∧
      ((feedEvents (newCompanion redirectKeymap {}) events.queue).components =
          sm'.base.components ↔
        (∀ k, handledKey redirectKeymap (xkbMachineNew redirectKeymap {}) 0 .down = some k →
          RedirectsFresh redirectKeymap (xkbMachineNew redirectKeymap {}) k .down) ∨
            sm'.base.components ≠ (xkbMachineNew redirectKeymap {}).base.components) := by
  obtain ⟨sm', events, h⟩ : ∃ sm' events, xkbMachineProcessKey redirectKeymap
      (xkbMachineNew redirectKeymap {}) 0 .down = some (sm', events) := ⟨_, _, rfl⟩
  exact ⟨sm', events, h, processKey_companion_iff (.init {}) h (.inl rfl) rfl⟩

/-- The press of the key that also locks a layout: the layout wraps around and nothing has
changed in the end, but the companion is left with a locked layout out of range. -/
theorem processKey_companion_stale :
    ∃ sm' events, xkbMachineProcessKey redirectKeymap (xkbMachineNew redirectKeymap {}) 1 .down =
        some (sm', events) ∧ MachineReachable redirectKeymap (xkbMachineNew redirectKeymap {}) ∧
      (feedEvents (newCompanion redirectKeymap {}) events.queue).components ≠
        sm'.base.components :=
  ⟨_, _, rfl, .init {}, by decide +kernel⟩

/-- The components against which `xkb_state_update_key` reports its changes: those after the
deactivation of the sticky keys. -/
def reportedFrom (km : XkbKeymap) (s : XkbServerState) (dir : KeyDirection) : StateComponents :=
  (autoDisableStickyKeys km ⟨s, none⟩ dir).state.components

theorem exact_iff_differs {changed : BitVec 32} {a b c : StateComponents}
    (h : Exact changed b c) : Exact changed a c ↔
      ∀ x : Component, x.Differs a b → x.Differs a c ∧ x.Differs b c := by
  unfold Exact at h ⊢
  simp only [h _]
  refine forall_congr' fun x => ?_
  cases x <;> simp only [Component.Differs] <;> grind

/-- **Reported changes are exact.** For the mask returned by `xkb_state_update_key`, exactly if the
event is ignored, or does not deactivate the sticky keys, or whatever the deactivation changes gets
a third value. For the masks of the events of `xkb_machine_process_key`, relative to the
components announced before, if the redirections are fresh and the tweaks exact. -/
theorem keyEvent_changes_exact (km : XkbKeymap) (kc : ℕ) (dir : KeyDirection) :
    (∀ s, ServerReachable km s →
      (Exact (xkbStateUpdateKey km s kc dir).2 s.components
          (xkbStateUpdateKey km s kc dir).1.components ↔
        s.isServer = false ∨ eventKey km kc dir = none ∨ disablesStickyKeys s dir = false ∨
          ∀ x : Component, x.Differs s.components (reportedFrom km s dir) →
            x.Differs s.components (xkbStateUpdateKey km s kc dir).1.components ∧
              x.Differs (reportedFrom km s dir)
                (xkbStateUpdateKey km s kc dir).1.components)) ∧
    (∀ sm sm' events, MachineReachable km sm →
      xkbMachineProcessKey km sm kc dir = some (sm', events) →
      (∀ k, handledKey km sm kc dir = some k →
        RedirectsFresh km sm k dir ∧ TweaksExact km sm k dir) →
      ExactFrom sm.base.components events.queue) := by
  constructor
  · intro s _
    have hself : Exact 0#32 s.components s.components := by
      have := getStateComponentChanges_exact s.components s.components
      rwa [(getStateComponentChanges_eq_zero_iff _ _).mpr rfl] at this
    unfold xkbStateUpdateKey
    split
    · rename_i hserver
      exact iff_of_true hself (.inl hserver)
    · rename_i hserver
      split
      · rename_i hnone
        exact iff_of_true hself (.inr (.inl hnone))
      · rename_i k hk
        rw [exact_iff_differs (getStateComponentChanges_exact _ _), hk]
        simp only [hserver, reduceCtorEq, false_or]
        refine ⟨.inr, fun h => h.elim (fun hsticky => ?_) id⟩
        intro x hx
        rw [autoDisableStickyKeys_of_not hsticky] at hx
        cases x <;> exact absurd rfl hx
  · intro sm sm' events h hp hcond
    exact (processKey_stream h hp).2 hcond

/-- The press of the key that redirects, for a machine and for a server state, which starts
no redirection. -/
theorem keyEvent_changes_exact_redirect :
    Exact (xkbStateUpdateKey redirectKeymap (xkbStateNew redirectKeymap) 0 .down).2
        (xkbStateNew redirectKeymap).components
        (xkbStateUpdateKey redirectKeymap (xkbStateNew redirectKeymap) 0 .down).1.components ∧
      ∃ sm' events, xkbMachineProcessKey redirectKeymap (xkbMachineNew redirectKeymap {}) 0 .down =
          some (sm', events) ∧
        ExactFrom (xkbMachineNew redirectKeymap {}).base.components events.queue := by
  obtain ⟨sm', events, h⟩ : ∃ sm' events, xkbMachineProcessKey redirectKeymap
      (xkbMachineNew redirectKeymap {}) 0 .down = some (sm', events) := ⟨_, _, rfl⟩
  obtain ⟨hserver, hmachine⟩ := keyEvent_changes_exact redirectKeymap 0 .down
  have hsticky : disablesStickyKeys (xkbStateNew redirectKeymap) .down = false := by decide
  refine ⟨(hserver _ (serverReachable_xkbStateNew _)).mpr (.inr (.inr (.inl hsticky))), sm', events,
    h, hmachine _ _ _ (.init {}) h fun k hk => ?_⟩
  cases hk
  exact ⟨redirectsFresh_single _ rfl rfl (a := redirectFirstMod) rfl, .inl rfl⟩

/-- A key that holds a modifier, and one that does nothing. -/
def stickyKeymap : XkbKeymap where
  maxKeyCode := 1
  numKeysLow := 2
  keys := [oneLevelKey 0 [setMods 1#32], oneLevelKey 1 []]

/-- A state with sticky keys that a second key deactivates, after the press of the first. -/
def stickyState : XkbServerState :=
  ServerCall.exec stickyKeymap
    (ServerCall.exec stickyKeymap
      (xkbServerStateInit stickyKeymap .legacyMixedState 0#32 a11yStickyKeysNoSimultaneousKeys)
      (.updateSynthetic
        { components := some
            { components := xkbStateControls
              affectControls := controlStickyKeys
              controls := controlStickyKeys } }))
    (.updateKey 0 .down)

/-- The press of the second key disables a control, and the returned mask does not say
so. -/
theorem updateKey_changes_not_exact :
    ServerReachable stickyKeymap stickyState ∧
      ¬Exact (xkbStateUpdateKey stickyKeymap stickyState 1 .down).2 stickyState.components
        (xkbStateUpdateKey stickyKeymap stickyState 1 .down).1.components := by
  refine ⟨.call _ (.call _ (.init _ _ _)), fun h => ?_⟩
  have hdiffers : Component.controls.Differs stickyState.components
      (xkbStateUpdateKey stickyKeymap stickyState 1 .down).1.components := by
    unfold Component.Differs
    decide +kernel
  exact absurd ((h .controls).mpr hdiffers) (by decide +kernel)

end Xkbcommon
