import Xkbcommon.Companion
import Xkbcommon.Compile
import Xkbcommon.OverlayRuns

/-!
# Redirections and the keycodes of the key events

A machine reports a key under its own keycode, unless a `RedirectKey` action of the level
has started a filter that reports another one. The filter belongs to the key that is
handled, not to the key that is down: the overlays may let several physical keys be handled
as one. The other filters count the presses of their key, this one does not, and the first
release ends it. And a repeat of a key that is not redirected starts the redirection of the level
that the key has by then.

* `Xkbcommon.XkbServerState.redirects` – the active redirections of a state.
* `Xkbcommon.processResolvedKey_down`, `Xkbcommon.processResolvedKey_up` – the keycodes that
  one key event reports, and the redirections that it starts or ends.
* `Xkbcommon.paired_key_events` – along a run, the release of a key reports the keycode of
  its press, as long as no event hits a redirection that another key shares
  (`Xkbcommon.sharedRedirection`) and no repeat starts one (`Xkbcommon.lateRedirection`).
-/

namespace Xkbcommon

open Masks List FilterFunc XkbFilter

variable {queue : List XkbEvent} {f : XkbFilter} {k : KeyRef} {addr : KeyAddr} {func : FilterFunc}
  {sm : XkbMachine}

/-! ### Active redirections -/

/-- The redirection of a filter: the key that it is for, and the keycode that it reports. -/
def XkbFilter.redirection (f : XkbFilter) : Option (KeyAddr × ℕ) :=
  if f.func = some .redirectKey then some (f.key, f.action.redirect.keycode) else none

/-- The redirection in a slot. -/
def Frame.redirection (fr : Frame) (i : ℕ) : Option (KeyAddr × ℕ) :=
  (fr.slot i).bind XkbFilter.redirection

/-- **The active redirections**: a key is reported under a keycode. -/
def XkbServerState.redirects (s : XkbServerState) (addr : KeyAddr) (kc : ℕ) : Prop :=
  ∃ f ∈ s.filters, f.redirection = some (addr, kc)

/-- The keycodes of the key events of a queue. -/
def keycodes (queue : List XkbEvent) : List ℕ :=
  queue.filterMap fun
    | .key _ kc => some kc
    | .componentsChange _ _ => none

theorem redirection_eq_none (h : f.func ≠ some .redirectKey) : f.redirection = none := if_neg h

variable {fr : Frame} (actions : List XkbAction) (km : XkbKeymap) {a : XkbAction} {x : ℕ}

/-- A slot that is not in use does not redirect. -/
theorem bind_redirection : ((some f).filter busy).bind redirection = f.redirection :=
  bind_busy fun hfunc => redirection_eq_none (by simp [hfunc])

theorem redirection_of_getElem {i : ℕ} (hf : fr.state.filters[i]? = some f) :
    fr.redirection i = f.redirection := by
  rw [Frame.redirection, slot_of_getElem hf, bind_redirection]

theorem redirects_iff {kc : ℕ} :
    fr.state.redirects addr kc ↔ ∃ i, fr.redirection i = some (addr, kc) := by
  constructor
  · rintro ⟨f, hf, hr⟩
    obtain ⟨i, hi⟩ := getElem?_of_mem hf
    exact ⟨i, (redirection_of_getElem hi).trans hr⟩
  · rintro ⟨i, hi⟩
    obtain ⟨f, hslot, hr⟩ := Option.bind_eq_some_iff.mp hi
    exact ⟨f, mem_of_getElem? (slot_eq_some_iff.mp hslot).1, hr⟩

/-- A quiet change of a slot keeps its redirection. -/
theorem QuietAt.redirection {o o' : Option XkbFilter} (h : QuietAt o o') :
    o'.bind XkbFilter.redirection = o.bind XkbFilter.redirection := by
  refine h.bind (fun f f' hq => ?_) ?_
  · simp only [XkbFilter.redirection, hq.func, hq.key, hq.redirect]
  · rintro f (⟨hfunc, -⟩ | ⟨hfunc, -⟩) <;> exact redirection_eq_none (by simp [hfunc])

@[simp] theorem keycodes_nil : keycodes [] = [] := rfl

@[simp] theorem keycodes_append (queue' : List XkbEvent) :
    keycodes (queue ++ queue') = keycodes queue ++ keycodes queue' := filterMap_append

@[simp] theorem keycodes_key {dir : KeyDirection} {kc : ℕ} :
    keycodes (.key dir kc :: queue) = kc :: keycodes queue := rfl

@[simp] theorem keycodes_componentsChange (c : StateComponents) (changed : BitVec 32) :
    keycodes (.componentsChange c changed :: queue) = keycodes queue := rfl

/-- A redirection queues one key event. -/
theorem keycodes_appendRedirectKeyEvents (current : StateComponents) (redirect : RedirectKeyAction)
    {dir : KeyDirection} :
    keycodes (appendRedirectKeyEvents current queue redirect dir) =
      keycodes queue ++ [redirect.keycode] := by
  unfold appendRedirectKeyEvents
  dsimp only
  generalize (if redirect.affect = 0#32 then 0#32 else getStateComponentChanges _ _) = changed
  by_cases h : changed = 0#32
  · simp [h]
  · simp [h]

/-! ### The filters of an event -/

section Loop

variable {dir : KeyDirection} {fr₀ fr' : Frame} {i : ℕ}

/-- **The invariant of the loop over the slots**: the redirections of the key that the loop
has passed have ended and have reported their keycodes. On a press there are none. -/
structure RedirectInv (k : KeyRef) (fr₀ : Frame) (i : ℕ) (fr : Frame) : Prop where
  slotsOk : SlotsOk fr
  done : ∀ j < i, fr.redirection j = (fr₀.redirection j).filter (·.1 ≠ k.addr)
  ahead : ∀ j, i ≤ j → fr.redirection j = fr₀.redirection j
  codes : ∃ queue₀ queue, fr₀.events = some queue₀ ∧ fr.events = some queue ∧
    ∀ kc, kc ∈ keycodes queue ↔
      kc ∈ keycodes queue₀ ∨ ∃ j < i, fr₀.redirection j = some (k.addr, kc)

theorem RedirectInv.init (hok : SlotsOk fr₀) (hev : fr₀.events = some queue) :
    RedirectInv k fr₀ 0 fr₀ where
  slotsOk := hok
  done := fun j hj => absurd hj (Nat.not_lt_zero j)
  ahead := fun _ _ => rfl
  codes := ⟨queue, queue, hev, hev, by simp⟩

/-- The loop passes a slot: a redirection of the key ends and reports its keycode, everything
else stays. -/
theorem RedirectInv.step (h : RedirectInv k fr₀ i fr) (hok : SlotsOk fr')
    (hsame : ∀ j, j ≠ i → fr'.redirection j = fr.redirection j)
    (hself : fr'.redirection i = (fr₀.redirection i).filter (·.1 ≠ k.addr))
    (hev : ∀ queue, fr.events = some queue → ∃ queue', fr'.events = some queue' ∧
      ∀ kc, kc ∈ keycodes queue' ↔
        kc ∈ keycodes queue ∨ fr₀.redirection i = some (k.addr, kc)) :
    RedirectInv k fr₀ (i + 1) fr' where
  slotsOk := hok
  done := Nat.forall_lt_succ_right.mpr ⟨fun j hj => (hsame j hj.ne).trans (h.done j hj), hself⟩
  ahead := fun j hj => (hsame j (by omega)).trans (h.ahead j (by omega))
  codes := by
    obtain ⟨queue₀, queue, hev₀, hev₁, hcodes⟩ := h.codes
    obtain ⟨queue', hev', hcodes'⟩ := hev queue hev₁
    refine ⟨queue₀, queue', hev₀, hev', fun kc => ?_⟩
    rw [hcodes', hcodes, or_assoc, Nat.exists_lt_succ_right]

/-- The loop passes a slot without a redirection of the key. -/
theorem RedirectInv.pass (h : RedirectInv k fr₀ i fr) (hok : SlotsOk fr')
    (hsame : ∀ j, fr'.redirection j = fr.redirection j) (hev : fr'.events = fr.events)
    (hother : ∀ kc, fr₀.redirection i ≠ some (k.addr, kc)) : RedirectInv k fr₀ (i + 1) fr' := by
  refine h.step hok (fun j _ => hsame j) ?_ fun queue hq =>
    ⟨queue, hev.trans hq, fun kc => (or_iff_left (hother kc)).symm⟩
  rw [hsame, h.ahead i (le_refl i)]
  rcases hr : fr₀.redirection i with - | ⟨addr, kc⟩
  · rfl
  · have hne : addr ≠ k.addr := fun heq => hother kc (heq ▸ hr)
    rw [Option.filter_some, if_pos (by simpa using hne)]

/-- A filter that does not redirect the key keeps its redirection, if it has one. -/
theorem redirection_call_of_ne (fr : Frame) (hfunc : f.func = some func) (dir : KeyDirection)
    (hother : func = .redirectKey → k.addr ≠ f.key) :
    (func.call (clearAllLatchesAndLocks km) fr f k dir).filter.redirection = f.redirection := by
  by_cases hr : func = .redirectKey
  · subst hr
    simp [call, xkbFilterRedirectKeyFunc, hother rfl]
  · rw [redirection_eq_none (call_func_ne hfunc hr),
      redirection_eq_none (by simpa [hfunc] using hr)]

/-- **One filter keeps the invariant**: on a press there is no redirection of the key. -/
theorem RedirectInv.call (hk : k.addr.canHold = true)
    (hdir : dir = .up ∨ dir = .down ∧ ∀ j kc, fr₀.redirection j ≠ some (k.addr, kc))
    (h : RedirectInv k fr₀ i fr) (hf : fr.state.filters[i]? = some f) (hfunc : f.func = some func) :
    RedirectInv k fr₀ (i + 1) ((func.call (clearAllLatchesAndLocks km) fr f k dir).store i) := by
  have hstored := callStored_call km hk h.slotsOk hf hfunc dir
  have hok := hstored.slotsOk
  have hother := fun j hj => (hstored.other j hj).redirection
  have hself := redirection_of_getElem hstored.self
  have hbefore : fr₀.redirection i = f.redirection :=
    (h.ahead i (le_refl i)).symm.trans (redirection_of_getElem hf)
  by_cases hends : func = .redirectKey ∧ k.addr = f.key
  · obtain ⟨rfl, hkey⟩ := hends
    have hred : fr₀.redirection i = some (k.addr, f.action.redirect.keycode) := by
      rw [hbefore, redirection, if_pos hfunc, hkey]
    -- a press would not find a redirection of its key
    obtain rfl : dir = .up := hdir.resolve_right fun hdown => hdown.2 i _ hred
    have hcall : redirectKey.call (clearAllLatchesAndLocks km) fr f k .up =
        ⟨fr.appendRedirect f.action.redirect .up, { f with func := none }, .consume⟩ := by
      simp [call, xkbFilterRedirectKeyFunc, hkey]
    refine h.step hok hother ?_ fun queue hev =>
      ⟨appendRedirectKeyEvents fr.state.components queue f.action.redirect .up, ?_, fun kc => ?_⟩
    · rw [hself, hcall, hred, Option.filter_some, if_neg (by simp)]
      exact redirection_eq_none (by simp)
    · rw [hcall]
      exact congrArg (Option.map _) hev
    · rw [keycodes_appendRedirectKeyEvents, mem_append, mem_singleton, hred]
      simp [eq_comm]
  · have hsame := redirection_call_of_ne km fr hfunc dir fun hr hkey => hends ⟨hr, hkey⟩
    refine h.pass hok (fun j => ?_) ?_ fun kc heq => ?_
    · by_cases hj : j = i
      · rw [hj, hself, hsame, redirection_of_getElem hf]
      · exact hother j hj
    · by_cases hr : func = .redirectKey
      · subst hr
        have hkey : k.addr ≠ f.key := fun hkey => hends ⟨rfl, hkey⟩
        simp only [call, xkbFilterRedirectKeyFunc, if_pos hkey]
        rfl
      · exact events_call km h.slotsOk hr
    · rw [hbefore] at heq
      unfold redirection at heq
      split_ifs at heq with hr
      rw [Option.some.injEq, Prod.mk.injEq] at heq
      exact hends ⟨Option.some.inj (hfunc.symm.trans hr), heq.1.symm⟩

/-- The loop passes a free slot. -/
theorem RedirectInv.skip (h : RedirectInv k fr₀ i fr)
    (hf : fr.state.filters[i]? = some f) (hfunc : f.func = none) :
    RedirectInv k fr₀ (i + 1) fr := by
  refine h.pass h.slotsOk (fun _ => rfl) rfl fun kc heq => ?_
  rw [← h.ahead i (le_refl i), redirection_of_getElem hf,
    redirection_eq_none (by simp [hfunc])] at heq
  simp at heq

/-- The redirections and the keycodes, once all slots are passed. -/
theorem RedirectInv.end (h : RedirectInv k fr₀ i fr)
    (hend : i = 3 * fr₀.state.filters.length ∨ fr.state.filters.length ≤ i) :
    (∀ addr kc, fr.state.redirects addr kc ↔ fr₀.state.redirects addr kc ∧ addr ≠ k.addr) ∧
      ∃ queue₀ queue, fr₀.events = some queue₀ ∧ fr.events = some queue ∧
        ∀ kc, kc ∈ keycodes queue ↔ kc ∈ keycodes queue₀ ∨ fr₀.state.redirects k.addr kc := by
  have hnone : ∀ j, i ≤ j → fr₀.redirection j = none := fun j hj =>
    bind_slot_past hend hj (h.ahead j hj)
  have hall : ∀ j, fr.redirection j = (fr₀.redirection j).filter (·.1 ≠ k.addr) := by
    intro j
    rcases lt_or_ge j i with hj | hj
    · exact h.done j hj
    · rw [h.ahead j hj, hnone j hj, Option.filter_none]
  constructor
  · intro addr kc
    simp only [redirects_iff, hall, Option.filter_eq_some_iff, ← exists_and_right]
    simp
  · obtain ⟨queue₀, queue, hev₀, hev, hcodes⟩ := h.codes
    refine ⟨queue₀, queue, hev₀, hev, fun kc => (hcodes kc).trans (or_congr_right ?_)⟩
    rw [redirects_iff]
    constructor
    · rintro ⟨j, -, hr⟩
      exact ⟨j, hr⟩
    · rintro ⟨j, hr⟩
      refine ⟨j, Nat.lt_of_not_le fun hj => ?_, hr⟩
      rw [hnone j hj] at hr
      simp at hr

/-- The key that a filter is for, if it is active, and its redirection. -/
def XkbFilter.owner (f : XkbFilter) : Option KeyAddr × Option (KeyAddr × ℕ) :=
  (f.func.map fun _ => f.key, f.redirection)

/-- **A filter at a repeat**: it stays as it is, and consumes the event if it is for the key. -/
theorem call_repeated (func : FilterFunc) (fr : Frame) (f : XkbFilter) (k : KeyRef) :
    (func.call id fr f k .repeated).filter.owner = f.owner ∧
      (k.addr = f.key → (func.call id fr f k .repeated).result = .consume) := by
  cases func with
  | modLatch | groupLatch => exact ⟨rfl, fun hk => if_pos hk⟩
  | groupLock =>
    simp only [call, xkbFilterGroupLockFunc, countedSwitch]
    by_cases hk : k.addr = f.key <;> simp [hk]
  | _ =>
    simp only [call, xkbFilterModSetFunc, xkbFilterModLockFunc, xkbFilterGroupSetFunc,
      xkbFilterCtrlsFunc, xkbFilterRedirectKeyFunc, countedSwitch]
    by_cases hk : k.addr = f.key <;> simp [hk, owner, redirection]

/-- **The invariant of the loop for a repeat**: the filters stay, and those of the key consume the
event. -/
structure RepeatInv (k : KeyRef) (fr₀ : Frame) (i : ℕ) (fr : Frame) (consumed : Bool) : Prop where
  footprint : Footprint fr₀ fr
  events : ∃ queue, fr.events = some queue
  owners : fr.state.filters.map owner = fr₀.state.filters.map owner
  consumes : ∀ j < i, ∀ r, (fr₀.state.filters.map owner)[j]? = some (some k.addr, r) →
    consumed = true

theorem RepeatInv.call {consumed : Bool} (h : RepeatInv k fr₀ i fr consumed)
    (hf : fr.state.filters[i]? = some f) (hfunc : f.func = some func) :
    RepeatInv k fr₀ (i + 1) ((func.call (clearAllLatchesAndLocks km) fr f k .repeated).store i)
      (consumed ||
        (func.call (clearAllLatchesAndLocks km) fr f k .repeated).result == .consume) := by
  rw [call_eq_of_ne_up (by decide)]
  have hlocal := local_call func fr f k .repeated
  obtain ⟨howner, hconsume⟩ := call_repeated func fr f k
  have hget : (fr₀.state.filters.map owner)[i]? = some f.owner := by
    rw [← h.owners, getElem?_map, hf, Option.map_some]
  have hfilters : ((func.call id fr f k .repeated).store i).state.filters =
      fr.state.filters.set i (func.call id fr f k .repeated).filter := by
    rw [← hlocal.filters]
    rfl
  refine ⟨(h.footprint.trans hlocal.toFootprint).setFilter i _, ?_, ?_, ?_⟩
  · obtain ⟨queue, hev⟩ := h.events
    by_cases hr : func = .redirectKey
    · subst hr
      obtain ⟨-, heq⟩ | ⟨-, dir, heq⟩ := redirectKey_call fr f k .repeated
      · exact ⟨queue, (congrArg Frame.events heq).trans hev⟩
      · exact ⟨_, (congrArg Frame.events heq).trans (congrArg (Option.map _) hev)⟩
    · exact ⟨queue, (hlocal.events hr).trans hev⟩
  · rw [hfilters, map_set, howner, h.owners]
    obtain ⟨hi, hget⟩ := List.getElem?_eq_some_iff.mp hget
    rw [← hget, set_getElem_self]
  · refine Nat.forall_lt_succ_right.mpr ⟨fun j hj r hr => ?_, fun r hr => ?_⟩
    · rw [h.consumes j hj r hr, Bool.true_or]
    · have hkey : f.key = k.addr := by
        simpa [owner, hfunc] using congrArg Prod.fst (Option.some.inj (hget.symm.trans hr))
      rw [hconsume hkey.symm]
      exact Bool.or_true _

theorem RepeatInv.skip {consumed : Bool} (h : RepeatInv k fr₀ i fr consumed)
    (hf : fr.state.filters[i]? = some f) (hfunc : f.func = none) :
    RepeatInv k fr₀ (i + 1) fr consumed := by
  refine ⟨h.footprint, h.events, h.owners, Nat.forall_lt_succ_right.mpr ⟨h.consumes, ?_⟩⟩
  intro r hr
  rw [← h.owners, getElem?_map, hf, Option.map_some] at hr
  simp [owner, hfunc] at hr

end Loop

/-! ### The actions of an event -/

/-- The keycodes of the redirections among the actions of a level. A redirection to an
invalid keycode does not start. -/
def redirectTargets (actions : List XkbAction) : List ℕ :=
  actions.filterMap fun action =>
    if action.type = .redirectKey ∧ action.redirect.keycode ≠ xkbKeycodeInvalid
    then some action.redirect.keycode else none

/-- Resolving an action keeps where it redirects to. -/
theorem resolveAction_keycode {s : XkbServerState} :
    (resolveAction km s a).redirect.keycode = a.redirect.keycode := by
  unfold resolveAction
  dsimp only
  (repeat' split) <;> rfl

theorem redirectTargets_snoc :
    redirectTargets (actions ++ [a]) = redirectTargets actions ++ redirectTargets [a] :=
  filterMap_append

/-- An action that starts another filter, or none, does not redirect. -/
theorem redirectTargets_of_filterFunc_ne (s : XkbServerState)
    (h : (resolveAction km s a).type.filterFunc ≠ some .redirectKey) :
    redirectTargets [a] = [] := by
  have htype : a.type ≠ .redirectKey := by
    intro htype
    have hsame : (resolveAction km s a).type = .redirectKey := by simp [resolveAction, htype]
    rw [hsame] at h
    exact h rfl
  simp [redirectTargets, htype]

/-- **Starting an action**: a redirection is active from now on and has reported its keycode;
no other action does either. -/
theorem redirects_startFilter (hev : fr.events = some queue)
    (hfunc : (resolveAction km fr.state a).type.filterFunc = some func) :
    ∃ queue', (fr.startFilter k.addr (resolveAction km fr.state a) func).1.events = some queue' ∧
      keycodes queue' = keycodes queue ++ redirectTargets [a] ∧
      ∀ addr kc, (fr.startFilter k.addr (resolveAction km fr.state a) func).1.state.redirects
        addr kc ↔ fr.state.redirects addr kc ∨ addr = k.addr ∧ kc ∈ redirectTargets [a] := by
  obtain ⟨i, f₀, hkey, haction, hfunc₀, -, hfree, ⟨filters, heq, -⟩, hslot⟩ := slot_startFilter
  have hevents : (fr.startFilter k.addr (resolveAction km fr.state a) func).1.events =
      (func.start fr f₀).1.events := by rw [heq]
  -- what the new slot holds is added to the redirections
  have hadd : ∀ addr kc,
      (fr.startFilter k.addr (resolveAction km fr.state a) func).1.state.redirects addr kc ↔
        fr.state.redirects addr kc ∨ (func.start fr f₀).2.redirection = some (addr, kc) := by
    intro addr kc
    rw [← bind_redirection]
    simp only [redirects_iff, Frame.redirection, hslot]
    constructor
    · rintro ⟨j, hj⟩
      split at hj
      · exact .inr hj
      · exact .inl ⟨j, hj⟩
    · rintro (⟨j, hj⟩ | hnew)
      · refine ⟨j, ?_⟩
        rw [if_neg, hj]
        rintro rfl
        rw [hfree] at hj
        simp at hj
      · exact ⟨i, by rw [if_pos rfl, hnew]⟩
  by_cases hr : func = .redirectKey
  · subst hr
    obtain ⟨htype, -⟩ := resolveAction_redirectKey hfunc
    have hcode : f₀.action.redirect.keycode = a.redirect.keycode := by
      rw [haction, resolveAction_keycode]
    by_cases hinvalid : a.redirect.keycode = xkbKeycodeInvalid
    · have hstart : redirectKey.start fr f₀ = (fr, { f₀ with func := none }) := by
        simp [start, xkbFilterRedirectKeyNew, hcode, hinvalid]
      have htargets : redirectTargets [a] = [] := by simp [redirectTargets, hinvalid]
      refine ⟨queue, by rw [hevents, hstart, hev], by rw [htargets, append_nil], ?_⟩
      intro addr kc
      rw [hadd, hstart, htargets, redirection_eq_none (by simp)]
      simp
    · have hstart : redirectKey.start fr f₀ = (fr.appendRedirect f₀.action.redirect .down, f₀) := by
        simp [start, xkbFilterRedirectKeyNew, hcode, hinvalid, hev]
      have htargets : redirectTargets [a] = [a.redirect.keycode] := by
        simp [redirectTargets, htype, hinvalid]
      refine ⟨_, by rw [hevents, hstart, Frame.appendRedirect, hev]; rfl, ?_, fun addr kc => ?_⟩
      · rw [keycodes_appendRedirectKeyEvents, htargets, hcode]
      · rw [hadd, hstart, htargets, redirection, if_pos hfunc₀, hkey, hcode]
        simp only [Option.some.injEq, Prod.mk.injEq, mem_singleton, eq_comm]
  · have htargets : redirectTargets [a] = [] :=
      redirectTargets_of_filterFunc_ne km fr.state (by simpa [hfunc] using hr)
    refine ⟨queue, hevents.trans ((local_start.events hr).trans hev),
      by rw [htargets, append_nil], fun addr kc => ?_⟩
    rw [hadd, htargets, redirection_eq_none ((start_writes func fr hfunc₀).func_ne_redirectKey hr)]
    simp

/-- **The loop over the actions.** -/
theorem redirects_actions (actions : List XkbAction) (hev : fr.events = some queue) :
    ∃ queue', (actions.foldl (startAction km k) fr).events = some queue' ∧
      keycodes queue' = keycodes queue ++ redirectTargets actions ∧
      ∀ addr kc, (actions.foldl (startAction km k) fr).state.redirects addr kc ↔
        fr.state.redirects addr kc ∨ addr = k.addr ∧ kc ∈ redirectTargets actions := by
  refine actions_rec km (Q := fun pre fr' => ∃ queue', fr'.events = some queue' ∧
    keycodes queue' = keycodes queue ++ redirectTargets pre ∧
    ∀ addr kc, fr'.state.redirects addr kc ↔
      fr.state.redirects addr kc ∨ addr = k.addr ∧ kc ∈ redirectTargets pre) ?_ ?_ ?_
  · intro pre fr' a _ h hnone
    rwa [redirectTargets_snoc, redirectTargets_of_filterFunc_ne km fr'.state (by simp [hnone]),
      append_nil]
  · rintro pre fr' a func - ⟨queue₁, hev₁, hcodes₁, hred₁⟩ hfunc
    obtain ⟨queue₂, hev₂, hcodes₂, hred₂⟩ := redirects_startFilter km hev₁ hfunc
    refine ⟨queue₂, hev₂, ?_, fun addr kc => ?_⟩
    · rw [hcodes₂, hcodes₁, redirectTargets_snoc, append_assoc]
    · rw [hred₂, hred₁, redirectTargets_snoc, mem_append, or_assoc, ← and_or_left]
  · exact ⟨queue, hev, by simp [redirectTargets], by simp [redirectTargets]⟩

/-! ### One redirection on a level -/

theorem redirectTargets_map_updateActionMods (modmap : BitVec 32) (actions : List XkbAction) :
    redirectTargets (actions.map (updateActionMods km modmap)) = redirectTargets actions := by
  have hsame : ∀ a, (updateActionMods km modmap a).type = a.type ∧
      (updateActionMods km modmap a).redirect = a.redirect := by
    intro a
    unfold updateActionMods
    split <;> exact ⟨rfl, rfl⟩
  rw [redirectTargets, filterMap_map]
  refine filterMap_congr fun a _ => ?_
  simp only [Function.comp_apply, hsame]

/-- **`CheckMultipleActionsCategories` leaves one redirection on a level.** -/
theorem redirectTargets_checkMultipleActionsCategories :
    (redirectTargets (checkMultipleActionsCategories actions)).length ≤ 1 := by
  induction actions using reverseRecOn with
  | nil => exact Nat.zero_le 1
  | append_singleton actions a ih =>
    have hstep : checkMultipleActionsCategories (actions ++ [a]) =
        checkMultipleActionsCategories actions ++
          [if (checkMultipleActionsCategories actions).any (sameCategory · a)
            then { a with type := .none } else a] := by
      rw [checkMultipleActionsCategories, foldl_append]
      rfl
    rw [hstep, redirectTargets_snoc, length_append]
    split
    · simpa [redirectTargets] using ih
    · rename_i hany
      by_cases ha : a.type = .redirectKey
      · -- no earlier action is a redirection, or this one would be disabled
        have hnone : redirectTargets (checkMultipleActionsCategories actions) = [] := by
          refine filterMap_eq_nil_iff.mpr fun b hb => if_neg ?_
          rintro ⟨htype, -⟩
          exact hany (any_eq_true.mpr ⟨b, hb, by simp [sameCategory, htype, ha]⟩)
        rw [hnone, length_nil, zero_add]
        exact length_filterMap_le _ _
      · simpa [redirectTargets, ha] using ih

/-- A level of a compiled key has one redirection at most. -/
theorem redirectTargets_compile {km : XkbKeymap} {key : XkbKey}
    (hkey : key ∈ (updateDerivedKeymapFields km).keys) (state : XkbState) :
    (redirectTargets (xkbKeyGetActions state key)).length ≤ 1 := by
  rcases xkbKeyGetActions_compile hkey with heq | ⟨modmap, actions, heq⟩
  · rw [heq]
    decide
  · rw [heq, redirectTargets_map_updateActionMods]
    exact redirectTargets_checkMultipleActionsCategories actions

/-! ### A key event -/

/-- Once the filters have run, handling a key neither queues events nor redirects. -/
theorem handleKey_redirects (fr : Frame) (k : KeyRef) (dir : KeyDirection) :
    (handleKey km fr k dir).events = (xkbFilterApplyAll km fr.resetMasks k dir).events ∧
      ∀ addr kc, (handleKey km fr k dir).state.redirects addr kc ↔
        (xkbFilterApplyAll km fr.resetMasks k dir).state.redirects addr kc := by
  have hfilters : (handleKey km fr k dir).state.filters =
      (xkbFilterApplyAll km fr.resetMasks k dir).state.filters := updateBaseMods_filters _
  refine ⟨rfl, fun addr kc => ?_⟩
  rw [XkbServerState.redirects, XkbServerState.redirects, hfilters]

section Handle

variable (km : XkbKeymap) (hok : SlotsOk fr) (hk : k.addr.canHold = true)
  (hev : fr.events = some queue) {dir : KeyDirection}

include hok hk hev

/-- The loop over the slots, and what follows it. -/
theorem redirectInv_applyAll (hdir : dir = .up ∨
    dir = .down ∧ ∀ j kc, fr.resetMasks.redirection j ≠ some (k.addr, kc)) :
    ∃ i fr' c, RedirectInv k fr.resetMasks i fr' ∧
      (i = 3 * fr.resetMasks.state.filters.length ∨ fr'.state.filters.length ≤ i) ∧
      (((c = true ∨ dir = .up) ∧ xkbFilterApplyAll km fr.resetMasks k dir = fr') ∨
        (c = false ∧ dir ≠ .up ∧ xkbFilterApplyAll km fr.resetMasks k dir =
          (xkbKeyGetActions fr'.state.toXkbState k.key).foldl (startAction km k) fr')) :=
  applyAllWith_cases (P := fun i fr' _ => RedirectInv k fr.resetMasks i fr') km
    (fun _ _ _ _ h hf hfunc => h.skip hf hfunc)
    (fun _ _ _ _ _ h hf hfunc => h.call km hk hdir hf hfunc) (.init hok hev)

/-- **A release** ends the redirections of the key, which report their keycodes. -/
theorem redirects_handleKey_up :
    (∀ addr kc, (handleKey km fr k .up).state.redirects addr kc ↔
        fr.state.redirects addr kc ∧ addr ≠ k.addr) ∧
      ∃ queue', (handleKey km fr k .up).events = some queue' ∧
        ∀ kc, kc ∈ keycodes queue' ↔ kc ∈ keycodes queue ∨ fr.state.redirects k.addr kc := by
  obtain ⟨i, fr', c, h, hend, ⟨-, heq⟩ | ⟨-, hdir, -⟩⟩ := redirectInv_applyAll km hok hk hev
    (.inl (rfl : KeyDirection.up = .up))
  · obtain ⟨hred, queue₀, queue', hev₀, hev', hcodes⟩ := h.end hend
    obtain rfl := Option.some.inj (hev.symm.trans hev₀)
    obtain ⟨hevents, hstate⟩ := handleKey_redirects km fr k .up
    rw [heq] at hevents hstate
    exact ⟨fun addr kc => (hstate addr kc).trans (hred addr kc), queue', hevents.trans hev', hcodes⟩
  · exact absurd rfl hdir

/-- **A press** of a key without redirections starts those of its level, unless another
filter consumes the event. -/
theorem redirects_handleKey_down (hnone : ∀ kc, ¬fr.state.redirects k.addr kc)
    (hone : ∀ state, (redirectTargets (xkbKeyGetActions state k.key)).length ≤ 1) :
    ∃ target : Option ℕ,
      (∀ addr kc, (handleKey km fr k .down).state.redirects addr kc ↔
        fr.state.redirects addr kc ∨ addr = k.addr ∧ target = some kc) ∧
      ∃ queue', (handleKey km fr k .down).events = some queue' ∧
        ∀ kc, kc ∈ keycodes queue' ↔ kc ∈ keycodes queue ∨ target = some kc := by
  obtain ⟨i, fr', c, h, hend, hcases⟩ := redirectInv_applyAll km hok hk hev
    (.inr ⟨(rfl : KeyDirection.down = .down), fun j kc h =>
      hnone kc (redirects_iff.mpr ⟨j, h⟩)⟩)
  obtain ⟨hred, queue₀, queue₁, hev₀, hev₁, hcodes₁⟩ := h.end hend
  obtain rfl := Option.some.inj (hev.symm.trans hev₀)
  -- nothing has happened to the redirections up to here
  have hred' : ∀ addr kc, fr'.state.redirects addr kc ↔ fr.state.redirects addr kc := by
    intro addr kc
    refine (hred addr kc).trans ⟨And.left, fun hr => ⟨hr, ?_⟩⟩
    rintro rfl
    exact hnone kc hr
  have hcodes' : ∀ kc, kc ∈ keycodes queue₁ ↔ kc ∈ keycodes queue := fun kc =>
    (hcodes₁ kc).trans (or_iff_left (hnone kc))
  obtain ⟨hevents, hstate⟩ := handleKey_redirects km fr k .down
  rcases hcases with ⟨-, heq⟩ | ⟨-, -, heq⟩
  · rw [heq] at hevents hstate
    exact ⟨none, by simpa [hstate] using hred', queue₁, hevents.trans hev₁, by simpa using hcodes'⟩
  · rw [heq] at hevents hstate
    obtain ⟨queue₂, hev₂, hcodes₂, hred₂⟩ :=
      redirects_actions km (xkbKeyGetActions fr'.state.toXkbState k.key) hev₁
    have htargets := hone fr'.state.toXkbState
    have hmem : ∀ kc, kc ∈ redirectTargets (xkbKeyGetActions fr'.state.toXkbState k.key) ↔
        (redirectTargets (xkbKeyGetActions fr'.state.toXkbState k.key)).head? = some kc := by
      intro kc
      generalize redirectTargets _ = l at htargets
      match l, htargets with
      | [], _ => simp
      | [x], _ => simp [eq_comm]
    refine ⟨(redirectTargets (xkbKeyGetActions fr'.state.toXkbState k.key)).head?,
      fun addr kc => ?_, queue₂, hevents.trans hev₂, fun kc => ?_⟩
    · rw [hstate, hred₂, hred', hmem]
    · rw [hcodes₂, mem_append, hcodes', hmem]

omit hok hk in
/-- **A repeat** changes no redirection, unless the key has no filter and its level redirects. -/
theorem redirects_handleKey_repeated
    (hlate : (∃ f ∈ fr.state.filters, f.owner.1 = some k.addr) ∨
      redirectTargets (xkbKeyGetActions fr.state.toXkbState k.key) = []) (addr : KeyAddr) (kc : ℕ) :
    (handleKey km fr k .repeated).state.redirects addr kc ↔ fr.state.redirects addr kc := by
  have hinit : RepeatInv k fr.resetMasks 0 fr.resetMasks false :=
    ⟨.refl _, ⟨queue, hev⟩, rfl, fun j hj => absurd hj (Nat.not_lt_zero j)⟩
  obtain ⟨i, fr', c, h, hend, hcases⟩ := applyAllWith_cases
    (P := fun i fr' c => RepeatInv k fr.resetMasks i fr' c) km
    (fun _ _ _ _ h hf hfunc => h.skip hf hfunc) (fun _ _ _ _ _ h hf hfunc => h.call km hf hfunc)
    hinit
  have hsame : fr'.state.redirects addr kc ↔ fr.state.redirects addr kc := by
    have hmap : ∀ s : XkbServerState, s.redirects addr kc ↔
        some (addr, kc) ∈ (s.filters.map owner).map Prod.snd := by
      intro s
      simp [XkbServerState.redirects, owner]
    rw [hmap, hmap, h.owners]
    rfl
  obtain ⟨-, hstate⟩ := handleKey_redirects km fr k .repeated
  rw [hstate]
  rcases hcases with ⟨-, heq⟩ | ⟨hc, -, heq⟩
  · rw [xkbFilterApplyAll, heq, hsame]
  · -- a filter of the key would have consumed the event
    have hlength := congrArg length h.owners
    rw [length_map, length_map] at hlength
    have hnone : ¬∃ f ∈ fr.state.filters, f.owner.1 = some k.addr := by
      rintro ⟨f, hf, howner⟩
      obtain ⟨j, hj⟩ := getElem?_of_mem hf
      have hlt : j < fr.resetMasks.state.filters.length := (List.getElem?_eq_some_iff.mp hj).1
      refine Bool.false_ne_true (hc.symm.trans (h.consumes j (by omega) f.owner.2 ?_))
      rw [getElem?_map, show fr.resetMasks.state.filters[j]? = some f from hj, Option.map_some,
        ← howner]
    obtain ⟨queue', hev'⟩ := h.events
    obtain ⟨-, -, -, hred⟩ :=
      redirects_actions km (k := k) (xkbKeyGetActions fr'.state.toXkbState k.key) hev'
    have htargets : redirectTargets (xkbKeyGetActions fr'.state.toXkbState k.key) = [] := by
      rw [h.footprint.xkbKeyGetActions]
      exact hlate.resolve_left hnone
    rw [xkbFilterApplyAll, heq, hred, hsame, htargets]
    simp

end Handle

/-- The key event that follows the filters. -/
theorem mem_keycodes_appendKeyEvent {dir : KeyDirection} {kc : ℕ} :
    x ∈ keycodes (appendKeyEvent queue dir kc) ↔
      x ∈ keycodes queue ∨ (∀ y, y ∉ keycodes queue) ∧ x = kc := by
  have hany : queue.any XkbEvent.isKey = true ↔ ∃ y, y ∈ keycodes queue := by
    simp only [any_eq_true, keycodes, mem_filterMap]
    constructor
    · rintro ⟨e, he, hkey⟩
      cases e with
      | key dir' y => exact ⟨y, _, he, rfl⟩
      | componentsChange => simp [XkbEvent.isKey] at hkey
    · rintro ⟨y, e, he, hkey⟩
      cases e with
      | key dir' y' => exact ⟨_, he, rfl⟩
      | componentsChange => simp at hkey
  unfold appendKeyEvent
  split
  · rename_i hkey
    obtain ⟨y, hy⟩ := hany.mp hkey
    exact ⟨.inl, fun h => h.resolve_right fun hno => hno.1 y hy⟩
  · rename_i hkey
    have hno : ∀ y, y ∉ keycodes queue := fun y hy => hkey (hany.mpr ⟨y, hy⟩)
    simp only [keycodes_append, keycodes_key, keycodes_nil, mem_append, mem_singleton,
      hno, not_false_eq_true, implies_true, true_and]

section Process

variable (km : XkbKeymap) (hok : FiltersOk sm.base) (overlays : MachineOverlays)
  (hk : k.addr.canHold = true) (dir : KeyDirection)

include hok

/-- **A key event is handled on a frame with the same redirections** and without key events. -/
theorem processResolvedKey_handleKey :
    ∃ fr queue, SlotsOk fr ∧ fr.events = some queue ∧ keycodes queue = [] ∧
      fr.resetMasks = keyFrame km sm k dir ∧
      (dir = .repeated → fr.state.filters = sm.base.filters) ∧
      (∀ addr kc, fr.state.redirects addr kc ↔ sm.base.redirects addr kc) ∧
      (processResolvedKey km sm overlays k dir).1.base = (handleKey km fr k dir).state ∧
      keycodes (processResolvedKey km sm overlays k dir).2.queue = keycodes
        (appendKeyEvent ((handleKey km fr k dir).events.getD []) dir k.key.keycode) := by
  have hok₀ : SlotsOk ⟨sm.base, some []⟩ := hok
  have heffect := autoDisableStickyKeys_effect km hok₀ dir
  have hfilters : dir = .repeated →
      (autoDisableStickyKeys km ⟨sm.base, some []⟩ dir).state.filters = sm.base.filters := by
    rintro rfl
    rfl
  simp only [processResolvedKey, finishEvents_base, finishEvents_queue, keyFrame]
  generalize autoDisableStickyKeys km ⟨sm.base, some []⟩ dir = fr at heffect hfilters
  have hev : fr.events = some [] := heffect.masks.events
  have hred : ∀ addr kc, fr.state.redirects addr kc ↔ sm.base.redirects addr kc := by
    intro addr kc
    have hsame : ∀ i, fr.redirection i = (⟨sm.base, some []⟩ : Frame).redirection i := fun i =>
      (heffect.quiet.slot i).redirection
    rw [redirects_iff]
    simp only [hsame]
    exact redirects_iff.symm
  have htail : ∀ previous c, keycodes (changeEvents previous c) = [] := by
    intro previous c
    unfold changeEvents
    split <;> rfl
  have hundo : ∀ previous queue, keycodes (undoTweaks previous queue) = keycodes queue := by
    intro previous queue
    unfold undoTweaks
    dsimp only
    split <;> simp
  rw [hev, Option.getD_some]
  unfold processKeyEvents
  rcases doTweaks_cases km sm.config fr.state.toXkbState with
    ht | ⟨c, changed, state', i, ht, -⟩
  · rw [ht]
    refine ⟨⟨fr.state, some []⟩, [], heffect.slotsOk, rfl, rfl, rfl, hfilters, hred, rfl, ?_⟩
    simp only [keycodes_append, htail, append_nil, Option.isSome_none, Bool.false_eq_true, if_false]
  · rw [ht]
    refine ⟨⟨{ fr.state with toXkbState := state' }, some [.componentsChange c changed]⟩, _,
      heffect.slotsOk, rfl, rfl, rfl, hfilters, hred, rfl, ?_⟩
    simp only [keycodes_append, htail, append_nil, Option.isSome_some, if_true, hundo]

include hk

/-- **The release of a key** reports its redirections, or itself if it has none. -/
theorem processResolvedKey_up :
    (∀ addr kc, (processResolvedKey km sm overlays k .up).1.base.redirects addr kc ↔
        sm.base.redirects addr kc ∧ addr ≠ k.addr) ∧
      ∀ kc, kc ∈ keycodes (processResolvedKey km sm overlays k .up).2.queue ↔
        sm.base.redirects k.addr kc ∨
          (∀ y, ¬sm.base.redirects k.addr y) ∧ kc = k.key.keycode := by
  obtain ⟨fr, queue, hok', hev, hnil, -, -, hred, hbase, hqueue⟩ :=
    processResolvedKey_handleKey km hok overlays .up
  obtain ⟨hred', queue', hev', hcodes⟩ := redirects_handleKey_up km hok' hk hev
  have hcodes' : ∀ kc, kc ∈ keycodes queue' ↔ sm.base.redirects k.addr kc := by
    intro kc
    rw [hcodes, hnil, hred]
    simp
  refine ⟨fun addr kc => ?_, fun kc => ?_⟩
  · rw [hbase, hred', hred]
  · rw [hqueue, hev', Option.getD_some, mem_keycodes_appendKeyEvent]
    simp only [hcodes']

/-- **The press of a key** without redirections reports the redirection of its level, which is
active from then on, or itself. -/
theorem processResolvedKey_down (hnone : ∀ kc, ¬sm.base.redirects k.addr kc)
    (hone : ∀ state, (redirectTargets (xkbKeyGetActions state k.key)).length ≤ 1) :
    ∃ target : Option ℕ,
      (∀ addr kc, (processResolvedKey km sm overlays k .down).1.base.redirects addr kc ↔
        sm.base.redirects addr kc ∨ addr = k.addr ∧ target = some kc) ∧
      ∀ kc, kc ∈ keycodes (processResolvedKey km sm overlays k .down).2.queue ↔
        kc = target.getD k.key.keycode := by
  obtain ⟨fr, queue, hok', hev, hnil, -, -, hred, hbase, hqueue⟩ :=
    processResolvedKey_handleKey km hok overlays .down
  obtain ⟨target, hred', queue', hev', hcodes⟩ := redirects_handleKey_down km hok' hk hev
    (fun kc => mt (hred k.addr kc).mp (hnone kc)) hone
  have hcodes' : ∀ kc, kc ∈ keycodes queue' ↔ target = some kc := by
    intro kc
    rw [hcodes, hnil]
    simp
  refine ⟨target, fun addr kc => ?_, fun kc => ?_⟩
  · rw [hbase, hred', hred]
  · rw [hqueue, hev', Option.getD_some, mem_keycodes_appendKeyEvent]
    simp only [hcodes']
    cases target with
    | none => simp
    | some t => simp [eq_comm]

omit hk in
/-- **The repeat of a key** leaves the redirections alone. -/
theorem processResolvedKey_repeated
    (hlate : (∃ f ∈ sm.base.filters, f.owner.1 = some k.addr) ∨
      redirectTargets (xkbKeyGetActions (keyFrame km sm k .repeated).state.toXkbState k.key) = [])
    (addr : KeyAddr) (kc : ℕ) :
    (processResolvedKey km sm overlays k .repeated).1.base.redirects addr kc ↔
      sm.base.redirects addr kc := by
  obtain ⟨fr, queue, -, hev, -, hframe, hfilters, hred, hbase, -⟩ :=
    processResolvedKey_handleKey km hok overlays .repeated
  rw [← hframe, ← hfilters rfl] at hlate
  rw [hbase, redirects_handleKey_repeated km hev hlate, hred]

end Process

/-! ### Runs of key events -/

/-- The calls of a run of key events. -/
def keyCalls (es : List (ℕ × KeyDirection)) : List MachineCall :=
  es.map fun e => .processKey e.1 e.2

theorem keyEvents_keyCalls (es : List (ℕ × KeyDirection)) : keyEvents (keyCalls es) = es := by
  rw [keyCalls, keyEvents, filterMap_map]
  exact filterMap_some

/-- **The key that a physical key is handled as**, while it is down. -/
def heldAs (km : XkbKeymap) (es : List (ℕ × KeyDirection)) (sm : XkbMachine) (kc : ℕ) :
    Option KeyAddr :=
  if 0 < depth es kc then (keyOf km kc).map fun k => (overlaidKey sm.overlays k .up).2 else none

/-- **A key event hits a shared redirection**: the key that it is handled as is redirected, and
another physical key that is down is handled as the same key. -/
def sharedRedirection (km : XkbKeymap) (es : List (ℕ × KeyDirection)) (sm : XkbMachine)
    (e : ℕ × KeyDirection) : Bool :=
  match keyOf km e.1 with
  | none => false
  | some k =>
    let addr := (overlaidKey sm.overlays k e.2).2
    (es.any fun e' => e'.1 != e.1 && heldAs km es sm e'.1 == some addr) &&
      sm.base.filters.any fun f => f.func == some .redirectKey && f.key == addr

/-- **A repeat starts a redirection**: the key that it is handled as has no filter that would
consume the repeat, and its level redirects. -/
def lateRedirection (km : XkbKeymap) (sm : XkbMachine) (kc : ℕ) : Bool :=
  match handledKey km sm kc .repeated with
  | none => false
  | some k =>
    !(sm.base.filters.any fun f => f.owner.1 == some k.addr) &&
      redirectTargets (xkbKeyGetActions (keyFrame km sm k .repeated).state.toXkbState k.key) != []

/-- A press or a release hits a shared redirection, or a repeat starts one. -/
def misdirects (km : XkbKeymap) (es : List (ℕ × KeyDirection)) (sm : XkbMachine)
    (e : ℕ × KeyDirection) : Bool :=
  match e.2 with
  | .repeated => lateRedirection km sm e.1
  | _ => sharedRedirection km es sm e

section Run

variable {km : XkbKeymap} {es : List (ℕ × KeyDirection)} {sm' : XkbMachine} {kc kc' kc₀ : ℕ}
  {dir : KeyDirection} {events : XkbEvents} {target : Option ℕ}

theorem heldAs_of_keyOf (hk : keyOf km kc = some k) (hdown : 0 < depth es kc) :
    heldAs km es sm kc = some (overlaidKey sm.overlays k .up).2 := by
  rw [heldAs, if_pos hdown, hk, Option.map_some]

theorem depth_pos_of_heldAs (h : heldAs km es sm kc = some addr) : 0 < depth es kc := by
  by_contra hup
  rw [heldAs, if_neg hup] at h
  simp at h

/-- An event that hits no shared redirection. -/
theorem not_redirects_of_not_shared (h : sharedRedirection km es sm (kc, dir) = false)
    (hk : keyOf km kc = some k) (hne : kc' ≠ kc)
    (hheld : heldAs km es sm kc' = some (overlaidKey sm.overlays k dir).2) :
    ¬sm.base.redirects (overlaidKey sm.overlays k dir).2 x := by
  rintro ⟨f, hf, hr⟩
  -- a key that is down has had an event
  have hmem : ∃ e ∈ es, e.1 = kc' := by
    by_contra hno
    have hzero := depth_of_absent fun e he heq => hno ⟨e, he, heq⟩
    have hpos := depth_pos_of_heldAs hheld
    omega
  obtain ⟨e, he, rfl⟩ := hmem
  have hfunc : f.func = some .redirectKey := by
    by_contra hne
    rw [redirection_eq_none hne] at hr
    simp at hr
  rw [redirection, if_pos hfunc, Option.some.injEq, Prod.mk.injEq] at hr
  simp only [sharedRedirection, hk, Bool.and_eq_false_iff] at h
  rcases h with h | h
  · refine absurd h (Bool.eq_false_iff.not_left.mpr (any_eq_true.mpr ⟨e, he, ?_⟩))
    simp [hne, hheld]
  · refine absurd h (Bool.eq_false_iff.not_left.mpr (any_eq_true.mpr ⟨f, hf, ?_⟩))
    simp [hfunc, hr.1]

/-- A repeat that starts no redirection. -/
theorem owner_of_not_late (h : lateRedirection km sm kc = false)
    (hk : handledKey km sm kc .repeated = some k) :
    (∃ f ∈ sm.base.filters, f.owner.1 = some k.addr) ∨
      redirectTargets (xkbKeyGetActions (keyFrame km sm k .repeated).state.toXkbState k.key) =
        [] := by
  simp only [lateRedirection, hk, Bool.and_eq_false_iff, Bool.not_eq_false', bne_eq_false_iff_eq,
    any_eq_true, beq_iff_eq] at h
  exact h

/-- **The invariant of a run**: every redirection is of a key that some physical key is
handled as. -/
structure PairInv (km : XkbKeymap) (es : List (ℕ × KeyDirection)) (sm : XkbMachine) : Prop where
  filtersOk : FiltersOk sm.base
  table : TableOk sm.overlays.keys
  count : Counted km es sm.overlays.keys
  held : ∀ addr x, sm.base.redirects addr x → ∃ kc, heldAs km es sm kc = some addr

/-- A call for a key, in terms of the key that it is handled as. -/
theorem PairInv.processKey (h : PairInv km es sm)
    (hp : xkbMachineProcessKey km sm kc dir = some (sm', events))
    (hevent : eventKey km kc dir = some k) (hmatched : Matched (es ++ [(kc, dir)])) :
    ∃ k', derefKey km (overlaidKey sm.overlays k dir).2 = some k' ∧
      processResolvedKey km sm (overlaidKey sm.overlays k dir).1 k' dir = (sm', events) ∧
      TableOk sm'.overlays.keys ∧ Counted km (es ++ [(kc, dir)]) sm'.overlays.keys ∧
      TableCall km sm sm'.overlays.keys (.processKey kc dir) := by
  obtain ⟨hnone, -⟩ | ⟨k₁, k', hk₁, hk', heq⟩ := xkbMachineProcessKey_cases hp
  · cases hnone.symm.trans hevent
  · obtain rfl := Option.some.inj (hevent.symm.trans hk₁)
    obtain ⟨sm₁, hexec, -, htable, hcall⟩ := exec_processKey h.table hevent hk'
    obtain rfl : sm' = sm₁ := by
      rw [MachineCall.exec, hp, Option.map_some, Option.some.injEq] at hexec
      exact hexec
    have hcount : Counted km (keyEvents (keyCalls es)) sm.overlays.keys := by
      rw [keyEvents_keyCalls]
      exact h.count
    have hsnoc : keyEvents (keyCalls es ++ [.processKey kc dir]) = es ++ [(kc, dir)] := by
      rw [keyEvents_append_singleton, keyEvents_keyCalls]
      rfl
    refine ⟨k', hk', heq, htable, ?_, hcall⟩
    rw [← hsnoc]
    exact hcount.call (hsnoc ▸ hmatched) hcall

/-- **The keys that stay up or down** are handled as before. -/
theorem PairInv.heldAs_eq (h : PairInv km es sm) (htable : TableOk sm'.overlays.keys)
    (hcount : Counted km (es ++ [(kc, dir)]) sm'.overlays.keys)
    (hcall : TableCall km sm sm'.overlays.keys (.processKey kc dir))
    (hdepth : depth (es ++ [(kc, dir)]) kc' = depth es kc') :
    heldAs km (es ++ [(kc, dir)]) sm' kc' = heldAs km es sm kc' := by
  unfold heldAs
  rw [hdepth]
  split
  · rename_i hdown
    cases hk' : keyOf km kc' with
    | none => rfl
    | some k' =>
      rw [Option.map_some, Option.map_some]
      by_cases hoverlays : k'.key.overlays = 0#8
      · simp [overlaidKey, hoverlays]
      · -- the key has an entry before and after the call, with one target
        obtain ⟨e, he, hold⟩ := (h.count kc' k' hk' hoverlays).2 hdown
        obtain ⟨e', he', hold'⟩ := (hcount kc' k' hk' hoverlays).2 (by rwa [hdepth])
        rw [overlaidKey_of_entry h.table hk' hoverlays he hold,
          overlaidKey_of_entry htable hk' hoverlays he' hold',
          hcall.persists h.table hk' he hold he' hold']
  · rfl

/-- **A pressed key** stays what its press is handled as. -/
theorem PairInv.heldAs_press (h : PairInv km es sm) {k' : KeyRef} (hk : keyOf km kc = some k)
    (hp : processResolvedKey km sm (overlaidKey sm.overlays k .down).1 k' .down = (sm', events))
    (hup : depth es kc = 0) (htable : TableOk sm'.overlays.keys) :
    heldAs km (es ++ [(kc, .down)]) sm' kc = some (overlaidKey sm.overlays k .down).2 := by
  have hdown : 0 < depth (es ++ [(kc, .down)]) kc := by
    rw [depth_append_self, hup]
    decide
  rw [heldAs_of_keyOf hk hdown]
  by_cases hoverlays : k.key.overlays = 0#8
  · simp [overlaidKey, hoverlays]
  · have hkeys : sm'.overlays.keys = (overlaidKey sm.overlays k .down).1.keys := by
      obtain ⟨sm₀, queue, hoverlays₀, hfinish⟩ := processResolvedKey_eq_finishEvents
        (overlaidKey sm.overlays k .down).1
      rw [hp] at hfinish
      dsimp only at hfinish
      rw [hfinish, (finishEvents_keeps km sm.base.components sm₀ queue).2, hoverlays₀]
    have hturn := (tableTurn_processOverlayableKey h.table (addr_ne_null hk) .down).1
    have hprocess : overlaidKey sm.overlays k .down = processOverlayableKey sm.overlays k .down :=
      if_neg hoverlays
    rw [hprocess] at hkeys ⊢
    rw [← hkeys] at hturn
    generalize (processOverlayableKey sm.overlays k .down).2 = addr at hturn
    cases hturn with
    | held he hold =>
      have := ((h.count kc k hk hoverlays).1 _ he hold).2
      omega
    | first _ hmem =>
      rw [overlaidKey_of_entry htable hk hoverlays ((hmem _).mpr (.inr rfl)) rfl]
    | stray _ hdir => exact absurd rfl hdir

/-- A key that an address leads to is at that address, and is a key of the keymap. -/
theorem derefKey_spec (h : derefKey km addr = some k) : k.addr = addr ∧ k.key ∈ km.keys := by
  cases addr with
  | key i =>
    obtain ⟨key, hkey, rfl⟩ := Option.map_eq_some_iff.mp h
    exact ⟨rfl, mem_of_getElem? hkey⟩
  | _ => exact absurd h (by simp [derefKey])

/-- **What a key event does to the redirections**, and the keycodes that it reports, if it does not
misdirect. -/
inductive KeyStep (km : XkbKeymap) (es : List (ℕ × KeyDirection)) (sm : XkbMachine) (kc : ℕ)
    (sm' : XkbMachine) (queue : List XkbEvent) : KeyDirection → Prop
  /-- There is no such key. -/
  | ignored {dir : KeyDirection} (hk : keyOf km kc = none) (hsm : sm' = sm) (hqueue : queue = []) :
      KeyStep km es sm kc sm' queue dir
  /-- The key that the press is handled as was not redirected, and may be from now on. -/
  | press (k : KeyRef) (target : Option ℕ) (hk : derefKey km k.addr = some k)
      (hheld : heldAs km (es ++ [(kc, .down)]) sm' kc = some k.addr)
      (hnone : ∀ x, ¬sm.base.redirects k.addr x)
      (hred : ∀ addr x, sm'.base.redirects addr x ↔
        sm.base.redirects addr x ∨ addr = k.addr ∧ target = some x)
      (hcodes : ∀ x, x ∈ keycodes queue ↔ x = target.getD k.key.keycode) :
      KeyStep km es sm kc sm' queue .down
  /-- The key that the release is handled as is not redirected any more. -/
  | release (k : KeyRef) (hk : derefKey km k.addr = some k)
      (hheld : heldAs km es sm kc = some k.addr)
      (halone : ∀ kc', kc' ≠ kc → heldAs km es sm kc' = some k.addr →
        ∀ x, ¬sm.base.redirects k.addr x)
      (hred : ∀ addr x, sm'.base.redirects addr x ↔ sm.base.redirects addr x ∧ addr ≠ k.addr)
      (hcodes : ∀ x, x ∈ keycodes queue ↔ sm.base.redirects k.addr x ∨
        (∀ y, ¬sm.base.redirects k.addr y) ∧ x = k.key.keycode) :
      KeyStep km es sm kc sm' queue .up
  /-- A repeat changes nothing. -/
  | repeated (hred : ∀ addr x, sm'.base.redirects addr x ↔ sm.base.redirects addr x) :
      KeyStep km es sm kc sm' queue .repeated

/-- Every level has one redirection at most. -/
def OneRedirection (km : XkbKeymap) : Prop :=
  ∀ key ∈ km.keys, ∀ state, (redirectTargets (xkbKeyGetActions state key)).length ≤ 1

/-- A key that an event does not concern was held before it if it is held after it. -/
theorem KeyStep.other_of_redirects (hinv : PairInv km es sm) (h : KeyStep km es sm kc sm' queue dir)
    (hup : dir = .down → depth es kc = 0) (hx : sm.base.redirects addr x)
    (hx' : sm'.base.redirects addr x) :
    ∃ kc', (kc' = kc → dir = .repeated) ∧ heldAs km es sm kc' = some addr := by
  obtain ⟨kc', hheld⟩ := hinv.held addr x hx
  refine ⟨kc', ?_, hheld⟩
  rintro rfl
  have hdown := depth_pos_of_heldAs hheld
  cases h with
  | repeated => rfl
  | ignored hk =>
    rw [heldAs, if_pos hdown, hk] at hheld
    simp at hheld
  | press =>
    have := hup rfl
    omega
  | release k _ hheld' halone hred =>
    rw [hheld, Option.some.injEq] at hheld'
    exact absurd hheld' ((hred addr x).mp hx').2

section Step

variable (hone : OneRedirection km) (hp : xkbMachineProcessKey km sm kc dir = some (sm', events))
  (halt : Alternating (es ++ [(kc, dir)])) (hpairs : misdirects km es sm (kc, dir) = false)

include hone hp halt hpairs

/-- **A call is such a step.** -/
theorem PairInv.keyStep (h : PairInv km es sm) :
    KeyStep km es sm kc sm' events.queue dir ∧ FiltersOk sm'.base ∧
      TableOk sm'.overlays.keys ∧ Counted km (es ++ [(kc, dir)]) sm'.overlays.keys ∧
      TableCall km sm sm'.overlays.keys (.processKey kc dir) := by
  cases hevent : eventKey km kc dir with
  | none =>
    obtain ⟨rfl, rfl⟩ : sm' = sm ∧ events = {} := by
      obtain ⟨-, hsm⟩ | ⟨k, k', hk', -⟩ := xkbMachineProcessKey_cases hp
      · exact hsm
      · cases hevent.symm.trans hk'
    refine ⟨?_, h.filtersOk, h.table, fun kc' k' hk' hoverlays' => ?_, .ignored hevent rfl⟩
    · -- there is no such key, or it does not repeat
      cases hk : keyOf km kc with
      | none => exact .ignored hk rfl rfl
      | some k =>
        obtain rfl : dir = .repeated := by
          by_contra hdir
          simp [eventKey, hk, hdir] at hevent
        exact .repeated fun _ _ => Iff.rfl
    · rw [← keyDepth_of_keyOf hk', keyDepth_append_ignored hevent, keyDepth_of_keyOf hk']
      exact h.count kc' k' hk' hoverlays'
  | some k =>
    have hk := keyOf_of_eventKey hevent
    obtain ⟨k', hk', heq, htable, hcount, hcall⟩ := h.processKey hp hevent halt.matched
    obtain ⟨haddr, hmem⟩ := derefKey_spec hk'
    have hderef : derefKey km k'.addr = some k' := haddr ▸ hk'
    have hhold := canHold_of_derefKey hk'
    have hfilters := filtersOk_processResolvedKey km h.filtersOk (overlaidKey sm.overlays k dir).1
      hhold dir
    have hbusy : sharedRedirection km es sm (kc, dir) = false → ∀ kc', kc' ≠ kc →
        heldAs km es sm kc' = some k'.addr → ∀ x, ¬sm.base.redirects k'.addr x := by
      intro hshared kc' hne hheld x
      rw [haddr] at hheld ⊢
      exact not_redirects_of_not_shared hshared hk hne hheld
    rw [heq] at hfilters
    refine ⟨?_, hfilters, htable, hcount, hcall⟩
    cases dir with
    | repeated =>
      have hhandled : handledKey km sm kc .repeated = some k' := by
        rw [handledKey, hevent, Option.bind_some, hk']
      have hred := processResolvedKey_repeated km h.filtersOk
        (overlaidKey sm.overlays k .repeated).1 (owner_of_not_late hpairs hhandled)
      rw [heq] at hred
      exact .repeated hred
    | down =>
      have hup : depth es kc = 0 := halt.depth_of_last.1 rfl
      -- the key is up, so a redirection would be shared
      have hnone : ∀ x, ¬sm.base.redirects k'.addr x := by
        intro x hx
        obtain ⟨kc', hheld⟩ := h.held _ x hx
        refine hbusy hpairs kc' ?_ hheld x hx
        rintro rfl
        have := depth_pos_of_heldAs hheld
        omega
      obtain ⟨target, hred, hcodes⟩ := processResolvedKey_down km h.filtersOk
        (overlaidKey sm.overlays k .down).1 hhold hnone (hone k'.key hmem)
      rw [heq] at hred hcodes
      exact .press k' target hderef (by rw [haddr]; exact h.heldAs_press hk heq hup htable) hnone
        hred hcodes
    | up =>
      have hdown : depth es kc = 1 := halt.depth_of_last.2 rfl
      obtain ⟨hred, hcodes⟩ := processResolvedKey_up km h.filtersOk
        (overlaidKey sm.overlays k .up).1 hhold
      rw [heq] at hred hcodes
      refine .release k' hderef ?_ (hbusy hpairs) hred hcodes
      rw [haddr]
      exact heldAs_of_keyOf hk (by omega)

/-- **A call keeps the invariant.** -/
theorem PairInv.step (h : PairInv km es sm) :
    PairInv km (es ++ [(kc, dir)]) sm' ∧ KeyStep km es sm kc sm' events.queue dir ∧
      ∀ kc', (kc' = kc → dir = .repeated) →
        heldAs km (es ++ [(kc, dir)]) sm' kc' = heldAs km es sm kc' := by
  obtain ⟨hstep, hfilters, htable, hcount, hcall⟩ := h.keyStep hone hp halt hpairs
  have hother : ∀ kc', (kc' = kc → dir = .repeated) →
      heldAs km (es ++ [(kc, dir)]) sm' kc' = heldAs km es sm kc' := by
    intro kc' hdir
    refine h.heldAs_eq htable hcount hcall ?_
    by_cases hkc : kc' = kc
    · rw [hdir hkc, depth_append_repeated]
    · exact depth_append_of_ne hkc
  refine ⟨⟨hfilters, htable, hcount, fun addr x hx => ?_⟩, hstep, hother⟩
  by_cases hbefore : sm.base.redirects addr x
  · obtain ⟨kc', hne, hheld⟩ := hstep.other_of_redirects h halt.depth_of_last.1 hbefore hx
    exact ⟨kc', (hother kc' hne).trans hheld⟩
  · -- the redirection is new: the key was pressed
    cases hstep with
    | ignored _ hsm =>
      rw [hsm] at hx
      exact absurd hx hbefore
    | press k target _ hheld _ hred =>
      obtain ⟨rfl, -⟩ := ((hred addr x).mp hx).resolve_left hbefore
      exact ⟨kc, hheld⟩
    | release k _ _ _ hred => exact absurd ((hred addr x).mp hx).1 hbefore
    | repeated hred => exact absurd ((hred addr x).mp hx) hbefore

/-- **What is known about a key while it is down**: the redirections of the key that it is
handled as are those that its press has reported, or another key shares them. -/
structure Paired (km : XkbKeymap) (kc : ℕ) (k : KeyRef) (target : Option ℕ)
    (es : List (ℕ × KeyDirection)) (sm : XkbMachine) : Prop where
  inv : PairInv km es sm
  held : heldAs km es sm kc = some k.addr
  codes : (∀ x, sm.base.redirects k.addr x ↔ target = some x) ∨
    (∃ x, sm.base.redirects k.addr x) ∧ ∃ kc', kc' ≠ kc ∧ heldAs km es sm kc' = some k.addr

/-- **An event of another key**, or a repeat, keeps this. -/
theorem Paired.step (h : Paired km kc₀ k target es sm) (hmid : kc₀ = kc → dir = .repeated) :
    Paired km kc₀ k target (es ++ [(kc, dir)]) sm' := by
  obtain ⟨hinv, hstep, hother⟩ := h.inv.step hone hp halt hpairs
  have hheld₀ := (hother kc₀ hmid).trans h.held
  -- an event of a key that is handled as another one
  have hkeep (hsame : ∀ x, sm'.base.redirects k.addr x ↔ sm.base.redirects k.addr x)
      (hkc : dir = .repeated ∨ heldAs km es sm kc ≠ some k.addr) :
      Paired km kc₀ k target (es ++ [(kc, dir)]) sm' := by
    refine ⟨hinv, hheld₀, h.codes.imp (fun hcodes x => (hsame x).trans (hcodes x)) ?_⟩
    rintro ⟨⟨x, hx⟩, kc', hne₀, hheld⟩
    have hkc' : kc' = kc → dir = .repeated := fun heq =>
      hkc.resolve_right fun hno => hno (heq ▸ hheld)
    exact ⟨⟨x, (hsame x).mpr hx⟩, kc', hne₀, (hother kc' hkc').trans hheld⟩
  cases hstep with
  | ignored hk hsm =>
    subst hsm
    exact hkeep (fun _ => Iff.rfl) (.inr (by simp [heldAs, hk]))
  | repeated hred => exact hkeep (hred k.addr) (.inl rfl)
  | press k₁ target₁ _ hheld₁ hnone hred =>
    have hne : kc ≠ kc₀ := fun heq => by cases hmid heq.symm
    by_cases haddr : k.addr = k₁.addr
    · have hnone' : target = none := by
        rcases h.codes with hcodes | ⟨⟨x, hx⟩, -⟩
        · cases target with
          | none => rfl
          | some x => exact absurd (haddr ▸ (hcodes x).mpr rfl) (hnone x)
        · exact absurd (haddr ▸ hx) (hnone x)
      refine ⟨hinv, hheld₀, ?_⟩
      cases target₁ with
      | none =>
        left
        intro x
        rw [hred, haddr, hnone']
        simp [hnone]
      | some y =>
        exact .inr ⟨⟨y, (hred _ _).mpr (.inr ⟨haddr, rfl⟩)⟩, kc, hne, haddr ▸ hheld₁⟩
    · refine hkeep (fun x => by simp [hred, haddr]) (.inr fun hheld => ?_)
      have hup := halt.depth_of_last.1 rfl
      have hdown := depth_pos_of_heldAs hheld
      omega
  | release k₁ _ hheld₁ halone hred =>
    have hne : kc ≠ kc₀ := fun heq => by cases hmid heq.symm
    by_cases haddr : k.addr = k₁.addr
    · -- the key that is down is handled as the released one, so there was no redirection
      have hnone := halone kc₀ hne.symm (haddr ▸ h.held)
      refine ⟨hinv, hheld₀, .inl fun x => ?_⟩
      rw [hred]
      rcases h.codes with hcodes | ⟨⟨y, hy⟩, -⟩
      · rw [← hcodes x, haddr]
        simp [hnone]
      · exact absurd (haddr ▸ hy) (hnone y)
    · exact hkeep (fun x => by simp [hred, haddr]) (.inr fun hheld =>
        haddr (Option.some.inj (hheld.symm.trans hheld₁)))

end Step

/-- No event of a run misdirects. -/
def Directed (km : XkbKeymap) (builder : XkbMachineBuilder) (es : List (ℕ × KeyDirection)) : Prop :=
  Runs.History (fun pre e => ∀ sm, machineExec km builder (keyCalls pre) = some sm →
    misdirects km pre sm e = false) es

variable {builder : XkbMachineBuilder}

instance : Decidable (Directed km builder es) :=
  decidable_of_iff (Runs.History (fun pre e => ((machineExec km builder (keyCalls pre)).all
    fun sm => !misdirects km pre sm e) = true) es) (by simp [Directed, Option.all_eq_true])

theorem machineExec_keyCalls_snoc (e : ℕ × KeyDirection) :
    machineExec km builder (keyCalls (es ++ [e])) =
      (machineExec km builder (keyCalls es)).bind fun sm =>
        (xkbMachineProcessKey km sm e.1 e.2).map Prod.fst := by
  rw [keyCalls, map_append]
  exact machineExec_append_singleton

theorem pairInv_new : PairInv km [] (xkbMachineNew km builder) := by
  have hnew : OverlayInv km (recentOverlays km builder []) [] (xkbMachineNew km builder) :=
    overlayInv_new
  refine ⟨(MachineReachable.init builder).filtersOk, hnew.table, hnew.count, ?_⟩
  rintro addr x ⟨f, hf, -⟩
  exact absurd hf (by simp [xkbMachineNew, xkbServerStateInit])

/-- **The invariant holds along every run** whose events do not misdirect. -/
theorem pairInv_machineExec (hone : OneRedirection km) (halt : Alternating es)
    (hpairs : Directed km builder es)
    (hrun : machineExec km builder (keyCalls es) = some sm) : PairInv km es sm := by
  induction es using reverseRecOn generalizing sm with
  | nil =>
    obtain rfl := Option.some.inj hrun
    exact pairInv_new
  | append_singleton es e ih =>
    rw [machineExec_keyCalls_snoc] at hrun
    obtain ⟨sm₀, hrun₀, hcall⟩ := Option.bind_eq_some_iff.mp hrun
    obtain ⟨⟨sm₁, events⟩, hp, rfl⟩ := Option.map_eq_some_iff.mp hcall
    have hinv := ih halt.of_append hpairs.of_append hrun₀
    exact (hinv.step hone hp halt (hpairs.last sm₀ hrun₀)).1

/-! ### Paired key events -/

/-- **The events of other keys**, and repeats, keep it along a run. -/
theorem Paired.run (hone : OneRedirection km) {mid : List (ℕ × KeyDirection)}
    (hmid : ∀ e ∈ mid, e.1 = kc₀ → e.2 = .repeated) (halt : Alternating (es ++ mid))
    (hpairs : Directed km builder (es ++ mid))
    (hrun : machineExec km builder (keyCalls es) = some sm) (h : Paired km kc₀ k target es sm)
    (hrun' : machineExec km builder (keyCalls (es ++ mid)) = some sm') :
    Paired km kc₀ k target (es ++ mid) sm' := by
  induction mid using reverseRecOn generalizing sm' with
  | nil =>
    rw [append_nil] at hrun' ⊢
    obtain rfl := Option.some.inj (hrun.symm.trans hrun')
    exact h
  | append_singleton mid e ih =>
    rw [← append_assoc] at halt hpairs hrun' ⊢
    rw [machineExec_keyCalls_snoc] at hrun'
    obtain ⟨sm₀, hrun₀, hcall⟩ := Option.bind_eq_some_iff.mp hrun'
    obtain ⟨⟨sm₁, events⟩, hp, rfl⟩ := Option.map_eq_some_iff.mp hcall
    have hinv := ih (fun e he => hmid e (by simp [he])) halt.of_append hpairs.of_append hrun₀
    exact hinv.step hone hp halt (hpairs.last sm₀ hrun₀) fun heq => hmid e (by simp) heq.symm

end Run

/-- **Paired key events**: in a run of a compiled keymap whose presses and releases alternate, the
release of a key reports the same keycode as its press, whatever the events in between – as long as
no press or release hits a redirection that is shared with another key, and no repeat starts one. -/
theorem paired_key_events (km : XkbKeymap) (builder : XkbMachineBuilder) {kc : ℕ}
    {pre mid : List (ℕ × KeyDirection)}
    (halt : Alternating (pre ++ [(kc, .down)] ++ mid ++ [(kc, .up)]))
    (hmid : ∀ e ∈ mid, e.1 = kc → e.2 = .repeated)
    (hpairs : Directed (updateDerivedKeymapFields km) builder
      (pre ++ [(kc, .down)] ++ mid ++ [(kc, .up)]))
    {sm sm₁ sm₂ sm₃ : XkbMachine} {press release : XkbEvents}
    (hpre : machineExec (updateDerivedKeymapFields km) builder (keyCalls pre) = some sm)
    (hpress : xkbMachineProcessKey (updateDerivedKeymapFields km) sm kc .down = some (sm₁, press))
    (hrun : machineExec (updateDerivedKeymapFields km) builder
      (keyCalls (pre ++ [(kc, .down)] ++ mid)) = some sm₂)
    (hrelease : xkbMachineProcessKey (updateDerivedKeymapFields km) sm₂ kc .up =
      some (sm₃, release)) :
    (∀ x, x ∈ keycodes release.queue ↔ x ∈ keycodes press.queue) ∧
      ∀ x ∈ keycodes press.queue, ∀ y ∈ keycodes press.queue, x = y := by
  have hone : OneRedirection (updateDerivedKeymapFields km) := fun key hkey =>
    redirectTargets_compile hkey
  have halt₂ := halt.of_append
  have halt₁ := halt₂.of_append
  have hpairs₂ := hpairs.of_append
  have hpairs₁ := hpairs₂.of_append
  have hinv := pairInv_machineExec hone halt₁.of_append hpairs₁.of_append hpre
  obtain ⟨hinv₁, hstep, -⟩ := hinv.step hone hpress halt₁ (hpairs₁.last sm hpre)
  have hrun₁ : machineExec (updateDerivedKeymapFields km) builder
      (keyCalls (pre ++ [(kc, .down)])) = some sm₁ := by
    rw [machineExec_keyCalls_snoc, hpre, Option.bind_some, hpress, Option.map_some]
  cases hstep with
  | ignored hk _ hqueue =>
    have hevent : eventKey (updateDerivedKeymapFields km) kc .up = none := by simp [eventKey, hk]
    obtain ⟨-, -, rfl⟩ | ⟨k, -, hk', -⟩ := xkbMachineProcessKey_cases hrelease
    · rw [hqueue]
      simp
    · cases hevent.symm.trans hk'
  | press k target hk hheld hnone hred hcodes =>
    have hpaired : Paired (updateDerivedKeymapFields km) kc k target (pre ++ [(kc, .down)])
        sm₁ := by
      refine ⟨hinv₁, hheld, .inl fun x => ?_⟩
      rw [hred]
      simp [hnone]
    have hpaired₂ := hpaired.run hone hmid halt₂ hpairs₂ hrun₁ hrun
    obtain ⟨-, hstep₂, -⟩ := hpaired₂.inv.step hone hrelease halt (hpairs.last sm₂ hrun)
    refine ⟨fun x => ?_, fun x hx y hy => ((hcodes x).mp hx).trans ((hcodes y).mp hy).symm⟩
    rw [hcodes]
    cases hstep₂ with
    | ignored hk =>
      have hheld₂ := hpaired₂.held
      simp [heldAs, hk] at hheld₂
    | release k₁ hk₁ hheld₁ halone hred₁ hcodes₁ =>
      have haddr : k₁.addr = k.addr := Option.some.inj (hheld₁.symm.trans hpaired₂.held)
      obtain rfl : k = k₁ := by
        rw [haddr, hk] at hk₁
        exact Option.some.inj hk₁
      rcases hpaired₂.codes with hredirects | ⟨⟨y, hy⟩, kc', hne, hheld'⟩
      · rw [hcodes₁]
        simp only [hredirects]
        cases target with
        | none => simp
        | some t => simp [eq_comm]
      · exact absurd hy (halone kc' hne hheld' y)

/-- A keymap with two keys that an overlay lets be handled as one: the key 0 becomes
the key 1, which is redirected to the key 2. The key 3 locks the overlay. -/
def redirectedOverlayKeymap : XkbKeymap where
  format := .textV2
  maxKeyCode := 3
  numKeysLow := 4
  keys :=
    let level := fun action : XkbAction =>
      [{ type := { numLevels := 1 }, levels := [{ actions := [action] }] }]
    [{ overlays := 1#8, overlaysKeys := [some 1] },
      { keycode := 1, groups := level { type := .redirectKey, redirect := { keycode := 2 } } },
      { keycode := 2 },
      { keycode := 3, groups := level { type := .ctrlLock, ctrls := { ctrls := 2#32 } } }]

/-- The redirected key repeats, and is released after the overlay was locked. -/
theorem paired_key_events_redirected :
    ∃ (sm₁ sm₂ sm₃ : XkbMachine) (press release : XkbEvents),
      xkbMachineProcessKey (updateDerivedKeymapFields redirectedOverlayKeymap)
        (xkbMachineNew (updateDerivedKeymapFields redirectedOverlayKeymap) {}) 1 .down =
          some (sm₁, press) ∧
      machineExec (updateDerivedKeymapFields redirectedOverlayKeymap) {}
        (keyCalls ([] ++ [(1, .down)] ++ [(1, .repeated), (3, .down)])) = some sm₂ ∧
      xkbMachineProcessKey (updateDerivedKeymapFields redirectedOverlayKeymap) sm₂ 1 .up =
        some (sm₃, release) ∧
      ∀ x, x ∈ keycodes release.queue ↔ x ∈ keycodes press.queue := by
  have hall : Directed (updateDerivedKeymapFields redirectedOverlayKeymap) {}
      ([] ++ [(1, .down)] ++ [(1, .repeated), (3, .down)] ++ [(1, .up)]) := by
    decide +kernel
  have halt : Alternating ([] ++ [(1, .down)] ++ [(1, .repeated), (3, .down)] ++ [(1, .up)]) := by
    decide
  obtain ⟨⟨sm₁, press⟩, hpress⟩ := Option.isSome_iff_exists.mp
    (show (xkbMachineProcessKey (updateDerivedKeymapFields redirectedOverlayKeymap)
      (xkbMachineNew (updateDerivedKeymapFields redirectedOverlayKeymap) {}) 1 .down).isSome = true
      by decide +kernel)
  obtain ⟨sm, hsm⟩ := Option.isSome_iff_exists.mp
    (show (machineExec (updateDerivedKeymapFields redirectedOverlayKeymap) {}
      (keyCalls
        ([] ++ [(1, .down)] ++ [(1, .repeated), (3, .down)] ++ [(1, .up)]))).isSome = true by
      decide +kernel)
  rw [machineExec_keyCalls_snoc] at hsm
  obtain ⟨sm₂, hrun, hcall⟩ := Option.bind_eq_some_iff.mp hsm
  obtain ⟨⟨sm₃, release⟩, hrelease, -⟩ := Option.map_eq_some_iff.mp hcall
  exact ⟨sm₁, sm₂, sm₃, press, release, hpress, hrun, hrelease,
    (paired_key_events redirectedOverlayKeymap {} halt (by decide) hall rfl hpress hrun hrelease).1⟩

/-- **A redirection is ended by the release of another key**: both keys are handled as the key
1 and report the keycode 2; the key 1 is released first, and then the key 0 reports 1. -/
theorem paired_key_events_shared :
    Alternating ([] ++ [(3, .down)] ++ [(3, .up)] ++ [(1, .down)] ++ [(0, .down)] ++ [(1, .up)] ++
        [(0, .up)]) ∧
      ((machineExec (updateDerivedKeymapFields redirectedOverlayKeymap) {}
          (keyCalls [(3, .down), (3, .up), (1, .down)])).bind fun sm =>
        (xkbMachineProcessKey (updateDerivedKeymapFields redirectedOverlayKeymap) sm 0 .down).map
          fun r => keycodes r.2.queue) = some [2] ∧
      ((machineExec (updateDerivedKeymapFields redirectedOverlayKeymap) {}
          (keyCalls [(3, .down), (3, .up), (1, .down), (0, .down), (1, .up)])).bind fun sm =>
        (xkbMachineProcessKey (updateDerivedKeymapFields redirectedOverlayKeymap) sm 0 .up).map
          fun r => keycodes r.2.queue) = some [1] := by
  refine ⟨?_, ?_, ?_⟩ <;> decide +kernel

end Xkbcommon
