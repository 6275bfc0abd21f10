import Xkbcommon.Machine

/-!
# The transition systems of the public calls

A program that uses the library makes calls on a server state, on a client state or
on a machine. This file collects the calls into the steps of three transition
systems and says which states they reach:

* `Xkbcommon.ServerReachable` – a server state, from `xkb_state_new` or one of its
  variants, under key events, masks and out-of-band updates;
* `Xkbcommon.ClientReachable` – a client state, under masks;
* `Xkbcommon.MachineReachable` – a machine built from any builder, under key events,
  out-of-band updates and the calls of a server state on its inner state, which
  `xkb_machine_get_state` gives away.

The keys at the end are those of the examples of later files.
-/

namespace Xkbcommon

variable {c : ServerCall}

/-- A result that was mapped to a success is a success. -/
theorem exists_of_map_eq_ok {ε α β : Type*} {f : α → β} {x : Except ε α} {b : β}
    (h : x.map f = .ok b) : ∃ a, x = .ok a ∧ f a = b := by
  cases x with
  | error e => exact absurd h (by simp [Except.map])
  | ok a => exact ⟨a, rfl, by simpa [Except.map] using h⟩

/-! ### Server states -/

/-- A call on a server state. -/
inductive ServerCall
  | updateKey (kc : ℕ) (dir : KeyDirection)
  | updateMask (baseMods latchedMods lockedMods baseGroup latchedGroup lockedGroup : BitVec 32)
  | updateLatchedLocked (affectLatchedMods latchedMods : BitVec 32) (affectLatchedLayout : Bool)
      (latchedLayout affectLockedMods lockedMods : BitVec 32) (affectLockedLayout : Bool)
      (lockedLayout : BitVec 32)
  | updateSynthetic (update : XkbStateUpdate)
  deriving DecidableEq

/-- The state after a call. A rejected update leaves it as it is. -/
def ServerCall.exec (km : XkbKeymap) (s : XkbServerState) : ServerCall → XkbServerState
  | .updateKey kc dir => (xkbStateUpdateKey km s kc dir).1
  | .updateMask bm am lm bg ag lg =>
    { s with toXkbState := (xkbStateUpdateMask km s.toXkbState bm am lm bg ag lg).1 }
  | .updateLatchedLocked am m ag g alm lm alg lg =>
    (xkbStateUpdateLatchedLocked km s am m ag g alm lm alg lg).1
  | .updateSynthetic update =>
    match xkbStateUpdateSynthetic km s update with
    | .ok (s, _) => s
    | .error _ => s

/-- **What a call may do** to a server state: nothing, or the update that it is for. -/
inductive ServerCall.Executed (km : XkbKeymap) (s : XkbServerState) :
    ServerCall → XkbServerState → Prop
  | kept {c : ServerCall} : Executed km s c s
  | updateKey {kc : ℕ} {dir : KeyDirection} {k : KeyRef} (hk : eventKey km kc dir = some k) :
      Executed km s (.updateKey kc dir)
        (handleKey km (autoDisableStickyKeys km ⟨s, none⟩ dir) k dir).state
  | updateMask (bm am lm bg ag lg : BitVec 32) :
      Executed km s (.updateMask bm am lm bg ag lg)
        { s with toXkbState := (xkbStateUpdateMask km s.toXkbState bm am lm bg ag lg).1 }
  | updateLatchedLocked {am m g alm lm lg : BitVec 32} {ag alg : Bool}
      (update : XkbStateComponentsUpdate) :
      Executed km s (.updateLatchedLocked am m ag g alm lm alg lg)
        ((stateUpdateLatchedLocked km ⟨s, none⟩ update).updateDerived km).state
  | updateSynthetic {update : XkbStateUpdate} {fr : Frame}
      (h : applyStateUpdate km ⟨s, none⟩ update = .ok fr) :
      Executed km s (.updateSynthetic update) fr.state

theorem ServerCall.executed {km : XkbKeymap} {s s' : XkbServerState} (h : c.exec km s = s') :
    c.Executed km s s' := by
  subst h
  cases c with
  | updateKey kc dir =>
    simp only [exec, xkbStateUpdateKey]
    split
    · exact .kept
    · split
      · exact .kept
      · exact .updateKey ‹_›
  | updateMask => exact .updateMask ..
  | updateLatchedLocked =>
    simp only [exec, xkbStateUpdateLatchedLocked]
    split
    · exact .kept
    · exact .updateLatchedLocked _
  | updateSynthetic update =>
    simp only [exec, xkbStateUpdateSynthetic]
    split
    · rename_i s' changed hs
      split at hs
      · cases hs
      · obtain ⟨fr, hfr, heq⟩ := exists_of_map_eq_ok hs
        cases heq
        exact .updateSynthetic hfr
    · exact .kept

/-- The server states that calls reach, from any initial mode and accessibility
flags. -/
inductive ServerReachable (km : XkbKeymap) : XkbServerState → Prop
  | init (mode : StateMode) (affect flags : BitVec 32) :
      ServerReachable km (xkbServerStateInit km mode affect flags)
  | call {s : XkbServerState} (c : ServerCall) :
      ServerReachable km s → ServerReachable km (c.exec km s)

theorem serverReachable_xkbStateNew (km : XkbKeymap) : ServerReachable km (xkbStateNew km) :=
  .init .legacyMixedState 0#32 0#32

/-- The modes of the legacy server states. -/
inductive LegacyMode
  | mixed | server
  deriving DecidableEq, Repr

def LegacyMode.mode : LegacyMode → StateMode
  | .mixed => .legacyMixedState
  | .server => .legacyServerState

/-- A new legacy server state: `xkb_state_new`, or `xkb_state_new_with_mode` for the mode
`XKB_STATE_MODE_SERVER`. -/
def legacyStateNew (km : XkbKeymap) (m : LegacyMode) : XkbServerState :=
  xkbServerStateInit km m.mode 0#32 0#32

/-- A run of key events on a legacy server state, from a new one. -/
def keyRun (km : XkbKeymap) (m : LegacyMode) (es : List (ℕ × KeyDirection)) : XkbServerState :=
  es.foldl (fun s e => (xkbStateUpdateKey km s e.1 e.2).1) (legacyStateNew km m)

variable (km : XkbKeymap) (m : LegacyMode) {es : List (ℕ × KeyDirection)}

theorem keyRun_append_singleton (e : ℕ × KeyDirection) :
    keyRun km m (es ++ [e]) = (xkbStateUpdateKey km (keyRun km m es) e.1 e.2).1 := by
  rw [keyRun, List.foldl_append]
  rfl

theorem serverReachable_keyRun : ServerReachable km (keyRun km m es) := by
  induction es using List.reverseRecOn with
  | nil => exact .init m.mode 0#32 0#32
  | append_singleton es e ih =>
    rw [keyRun_append_singleton]
    exact .call (.updateKey e.1 e.2) ih

/-- The calls of a server that handles keys and the requests to latch and to lock. -/
def ServerCall.isKeyOrLatch : ServerCall → Bool
  | .updateKey .. | .updateLatchedLocked .. => true
  | .updateMask .. | .updateSynthetic .. => false

/-- A run of calls on a legacy server state, from a new one. -/
def serverRun (km : XkbKeymap) (m : LegacyMode) (cs : List ServerCall) : XkbServerState :=
  cs.foldl (ServerCall.exec km) (legacyStateNew km m)

theorem serverRun_append_singleton {cs : List ServerCall} :
    serverRun km m (cs ++ [c]) = c.exec km (serverRun km m cs) := by
  rw [serverRun, List.foldl_append]
  rfl

theorem serverReachable_serverRun (cs : List ServerCall) :
    ServerReachable km (serverRun km m cs) := by
  induction cs using List.reverseRecOn with
  | nil => exact .init m.mode 0#32 0#32
  | append_singleton cs c ih =>
    rw [serverRun_append_singleton]
    exact .call c ih

/-! ### Client states -/

/-- The client states that `xkb_state_update_mask` reaches. -/
inductive ClientReachable (km : XkbKeymap) : XkbState → Prop
  | init (mode : StateMode) : ClientReachable km (xkbClientStateNew km mode)
  | updateMask {state : XkbState} (bm am lm bg ag lg : BitVec 32) :
      ClientReachable km state →
      ClientReachable km (xkbStateUpdateMask km state bm am lm bg ag lg).1

/-! ### Machines -/

/-- The machines that calls reach. The batch of `xkb_machine_process_synthetic` is
the caller's, so it is arbitrary. -/
inductive MachineReachable (km : XkbKeymap) : XkbMachine → Prop
  | init (builder : XkbMachineBuilder) : MachineReachable km (xkbMachineNew km builder)
  | processKey {sm sm' : XkbMachine} {events : XkbEvents} (kc : ℕ) (dir : KeyDirection) :
      MachineReachable km sm → xkbMachineProcessKey km sm kc dir = some (sm', events) →
      MachineReachable km sm'
  | processSynthetic {sm sm' : XkbMachine} {events events' : XkbEvents}
      (update : XkbStateUpdate) :
      MachineReachable km sm →
      xkbMachineProcessSynthetic km sm update events = .ok (sm', events') →
      MachineReachable km sm'
  | call {sm : XkbMachine} (c : ServerCall) :
      MachineReachable km sm → MachineReachable km { sm with base := c.exec km sm.base }

/-! ### Small keys

Keys of one layout, for examples of runs. -/

/-- A key with one level. -/
def oneLevelKey (keycode : ℕ) (actions : List XkbAction) : XkbKey where
  keycode := keycode
  groups := [{ type := { numLevels := 1 }, levels := [{ actions := actions }] }]

/-- A key whose second level is reached with modifiers. -/
def twoLevelKey (keycode : ℕ) (mods : BitVec 32) (first second : List XkbAction) : XkbKey where
  keycode := keycode
  groups := [
    { type :=
        { mods := { mods := mods, mask := mods }
          numLevels := 2
          entries := [{ level := 1, mods := { mods := mods, mask := mods } }] }
      levels := [{ actions := first }, { actions := second }] }]

/-- `SetMods` with a mask. -/
def setMods (mask : BitVec 32) : XkbAction where
  type := .modSet
  mods := { mods := { mods := mask, mask := mask } }

/-- `LatchMods` with a mask. -/
def latchMods (mask : BitVec 32) : XkbAction where
  type := .modLatch
  mods := { mods := { mods := mask, mask := mask } }

/-- A group action that switches by one. -/
def nextGroup (type : XkbActionType) : XkbAction where
  type := type
  group := { group := 1#32 }

end Xkbcommon
