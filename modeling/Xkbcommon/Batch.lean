import Xkbcommon.Changes
import Xkbcommon.Gating

/-!
# The batch of an out-of-band update

An `xkb_events` batch is a queue with a read cursor, passed to both `process` calls of a
machine. `xkb_machine_process_key` resets it; `xkb_machine_process_synthetic` does not,
although its documentation says so, and appends to what earlier calls left behind.
`Xkbcommon.processSynthetic_reads_iff`: a reader gets exactly the events of the update if
and only if it had read all the earlier ones.
-/

namespace Xkbcommon

open Masks List

variable {km : XkbKeymap} {update : XkbStateUpdate} {events : XkbEvents}
  {previous : StateComponents} {sm : XkbMachine}

/-! ### Reading a batch -/

/-- The events returned by `n` calls of `xkb_events_next`, up to the first `NULL`. -/
def readEvents : ℕ → XkbEvents → List XkbEvent
  | 0, _ => []
  | n + 1, events =>
    match xkbEventsNext events with
    | (none, _) => []
    | (some event, events) => event :: readEvents n events

/-- Reading follows the cursor. -/
theorem readEvents_eq (n : ℕ) (events : XkbEvents) :
    readEvents n events = (events.queue.drop events.next).take n := by
  induction n generalizing events with
  | zero => simp [readEvents]
  | succ n ih =>
    unfold readEvents xkbEventsNext
    cases h : events.queue[events.next]? with
    | none =>
      rw [List.getElem?_eq_none_iff] at h
      simp [drop_eq_nil_of_le h]
    | some event =>
      obtain ⟨hlt, rfl⟩ := List.getElem?_eq_some_iff.mp h
      rw [drop_eq_getElem_cons hlt, take_succ_cons]
      exact congrArg _ (ih _)

/-- The batches that calls on machines of a keymap, and reads, leave behind. -/
inductive BatchReachable (km : XkbKeymap) : XkbEvents → Prop
  | new : BatchReachable km {}
  | processKey {sm sm' : XkbMachine} {events : XkbEvents} (kc : ℕ) (dir : KeyDirection) :
      MachineReachable km sm → xkbMachineProcessKey km sm kc dir = some (sm', events) →
      BatchReachable km events
  | processSynthetic {sm sm' : XkbMachine} {events events' : XkbEvents}
      (update : XkbStateUpdate) : MachineReachable km sm → BatchReachable km events →
      xkbMachineProcessSynthetic km sm update events = .ok (sm', events') →
      BatchReachable km events'
  | next {events : XkbEvents} : BatchReachable km events →
      BatchReachable km (xkbEventsNext events).2

/-! ### The events of an update -/

/-- **An out-of-band update queues no event while it runs**: the faked keys of the latches
start no redirection. -/
theorem applyStateUpdate_events {fr fr' : Frame} (hok : SlotsOk fr)
    (h : applyStateUpdate km fr update = .ok fr') : fr'.events = fr.events := by
  obtain ⟨range, -, rfl⟩ := exists_of_map_eq_ok h
  cases hu : update.components with
  | none => rfl
  | some u =>
    have hok' : SlotsOk { fr with state := { fr.state with outOfRangeGroup := range } } := hok
    have he := enabledControls_effect km hok' u.affectControls u.controls
    exact (latchedLocked_effect km he.slotsOk u).events.trans he.masks.events

/-- The event that announces a change of components, if there is one. -/
def changeEvents (previous components : StateComponents) : List XkbEvent :=
  if previous = components then []
  else [.componentsChange components (getStateComponentChanges previous components)]

/-- The end of a `process` call appends it. -/
theorem finishEvents_queue (queue : List XkbEvent) :
    (finishEvents km previous sm queue).2 = queue ++ changeEvents previous sm.base.components := by
  unfold finishEvents changeEvents
  by_cases h : previous = sm.base.components
  · rw [if_pos h, if_pos ((getStateComponentChanges_eq_zero_iff _ _).mpr h), append_nil]
  · rw [if_neg h, if_neg (mt (getStateComponentChanges_eq_zero_iff _ _).mp h)]

/-- **What `xkb_machine_process_synthetic` does to the batch**: it appends the change of
the components to the queue and leaves the cursor alone. -/
theorem processSynthetic_events {sm' : XkbMachine} (hsm : MachineReachable km sm)
    {events' : XkbEvents}
    (h : xkbMachineProcessSynthetic km sm update events = .ok (sm', events')) :
    events'.next = events.next ∧
      events'.queue = events.queue ++ changeEvents sm.base.components sm'.base.components := by
  obtain ⟨fr, hfr, heq, hnext⟩ := xkbMachineProcessSynthetic_cases h
  have hok : SlotsOk ⟨sm.base, some events.queue⟩ := hsm.filtersOk
  have hqueue := congrArg Prod.snd heq
  have hbase := congrArg (fun r => r.1.base) heq
  dsimp only at hqueue hbase
  rw [finishEvents_base] at hbase
  rw [finishEvents_queue, applyStateUpdate_events hok hfr] at hqueue
  refine ⟨hnext, ?_⟩
  rw [← hqueue, ← hbase]
  rfl

/-- The cursor of a batch never passes its end. -/
theorem BatchReachable.next_le (h : BatchReachable km events) :
    events.next ≤ events.queue.length := by
  induction h with
  | new => exact le_refl 0
  | processKey kc dir _ hp =>
    obtain ⟨-, -, rfl⟩ | ⟨k, k', -, -, heq⟩ := xkbMachineProcessKey_cases hp
    · exact le_refl 0
    · have hnext := congrArg (fun r => r.2.next) heq
      dsimp only [processResolvedKey] at hnext
      omega
  | processSynthetic update hsm _ hp ih =>
    obtain ⟨hnext, hqueue⟩ := processSynthetic_events hsm hp
    rw [hnext, hqueue, length_append]
    omega
  | @next events _ ih =>
    unfold xkbEventsNext
    cases h : events.queue[events.next]? with
    | none => exact ih
    | some event =>
      obtain ⟨hlt, -⟩ := List.getElem?_eq_some_iff.mp h
      exact hlt

/-! ### What a reader gets -/

/-- What a reader should get from an update: nothing if no component changed, otherwise
one event with the new components and the exact mask. -/
def AnnouncesChange (previous components : StateComponents) (reads : List XkbEvent) : Prop :=
  (previous = components ∧ reads = []) ∨
  (previous ≠ components ∧ ∃ changed, Exact changed previous components ∧
    reads = [.componentsChange components changed])

theorem announcesChange_changeEvents (previous components : StateComponents) :
    AnnouncesChange previous components (changeEvents previous components) := by
  unfold changeEvents
  by_cases h : previous = components
  · exact .inl ⟨h, if_pos h⟩
  · exact .inr ⟨h, _, getStateComponentChanges_exact _ _, if_neg h⟩

/-- The number of events of a change is determined by the components. -/
theorem AnnouncesChange.length_eq {components : StateComponents} {reads reads' : List XkbEvent}
    (h : AnnouncesChange previous components reads)
    (h' : AnnouncesChange previous components reads') : reads.length = reads'.length := by
  rcases h with ⟨heq, rfl⟩ | ⟨hne, changed, -, rfl⟩ <;>
    rcases h' with ⟨heq', rfl⟩ | ⟨hne', changed', -, rfl⟩ <;> first | rfl | contradiction

/-- **What is read after a successful `xkb_machine_process_synthetic`** is the change of the
components if and only if all earlier events of the batch had been read. -/
theorem processSynthetic_reads_iff {km : XkbKeymap} {sm sm' : XkbMachine}
    (hsm : MachineReachable km sm) {events events' : XkbEvents} (hev : BatchReachable km events)
    {update : XkbStateUpdate}
    (h : xkbMachineProcessSynthetic km sm update events = .ok (sm', events')) {n : ℕ}
    (hn : events'.queue.length ≤ n) :
    AnnouncesChange sm.base.components sm'.base.components (readEvents n events') ↔
      events.next = events.queue.length := by
  obtain ⟨hnext, hqueue⟩ := processSynthetic_events hsm h
  have hle := hev.next_le
  have hreads : readEvents n events' = events.queue.drop events.next ++
      changeEvents sm.base.components sm'.base.components := by
    rw [readEvents_eq, take_of_length_le (by rw [length_drop]; omega), hqueue, hnext,
      drop_append_of_le_length hle]
  rw [hreads]
  constructor
  · intro ha
    have hlen := ha.length_eq (announcesChange_changeEvents _ _)
    rw [length_append, length_drop] at hlen
    omega
  · intro heq
    rw [heq, drop_length]
    exact announcesChange_changeEvents _ _

/-- The update that locks the first modifier. -/
def lockFirstMod : XkbStateUpdate where
  components := some
    { components := xkbStateModsLocked, affectLockedMods := 1#32, lockedMods := 1#32 }

/-- An update with a new batch. -/
theorem processSynthetic_reads_new :
    ∃ sm' events', xkbMachineProcessSynthetic {} (xkbMachineNew {} {}) lockFirstMod {} =
        .ok (sm', events') ∧
      AnnouncesChange (xkbMachineNew {} {}).base.components sm'.base.components
        (readEvents events'.queue.length events') := by
  have h : xkbMachineProcessSynthetic {} (xkbMachineNew {} {}) lockFirstMod {} = .ok (_, _) := rfl
  exact ⟨_, _, h, (processSynthetic_reads_iff (.init {}) .new h (le_refl _)).mpr rfl⟩

/-- Two updates without a read between them: the second changes nothing, and the reader
gets the event of the first. -/
theorem processSynthetic_reads_stale :
    ∃ sm₁ events₁ sm₂ events₂,
      xkbMachineProcessSynthetic {} (xkbMachineNew {} {}) lockFirstMod {} = .ok (sm₁, events₁) ∧
      MachineReachable {} sm₁ ∧ BatchReachable {} events₁ ∧
      xkbMachineProcessSynthetic {} sm₁ {} events₁ = .ok (sm₂, events₂) ∧
      ¬AnnouncesChange sm₁.base.components sm₂.base.components
        (readEvents events₂.queue.length events₂) := by
  refine ⟨_, _, _, _, rfl, .processSynthetic lockFirstMod (.init {}) rfl,
    .processSynthetic lockFirstMod (.init {}) .new rfl, rfl, ?_⟩
  rintro (⟨-, h⟩ | ⟨h, -⟩)
  · cases h
  · exact h (by decide)

end Xkbcommon
