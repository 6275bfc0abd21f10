import Xkbcommon.Lib.Runs
import Xkbcommon.SetMods

/-!
# Held modifiers over runs of key events

What a user of the keyboard expects of the depressed modifiers: none is left when all
keys are up (`Xkbcommon.no_stuck_modifiers`), and the modifiers of a key that is down stay
depressed (`Xkbcommon.held_modifiers_stay`). Both hold along every run that avoids one
kind of event each.

* A press of a key whose latch still holds is not consumed by the latch, and starts the
  actions of its level. If one of them holds a modifier of the latch again, the modifier
  is counted twice, but the release of the key counts only once
  (`Xkbcommon.holdsOnce`).
* The release of a key whose latch is pending clears the modifiers of the latch, which
  other keys may hold by now (`Xkbcommon.clearsOwn`).

The invariants relate the counter of a modifier to the number of its holders
(`Holds.holders`), from above and from below.
-/

namespace Xkbcommon

open Masks Holds Counter List Set

variable {es : List (ℕ × KeyDirection)} {s s' : XkbServerState} {dir : KeyDirection} {b : Fin 32}
  {clear set : Bool} {k : KeyRef} {km : XkbKeymap} {kc i : ℕ} {g : Hold KeyAddr}

/-! ### No stuck modifiers -/

/-- **No modifier is held twice by one key**: a pressed key has no latch that still holds a
modifier of its level, and only keys that are down repeat – or the level has no
modifiers. -/
def holdsOnce (km : XkbKeymap) (s : XkbServerState) (es : List (ℕ × KeyDirection))
    (e : ℕ × KeyDirection) : Bool :=
  match eventKey km e.1 e.2 with
  | none => true
  | some k =>
    let mods := levelMods (xkbKeyGetActions s.toXkbState k.key)
    match e.2 with
    | .up => true
    | .down => s.filters.all fun f =>
        !(f.key = k.addr && f.func = some .modLatch && anyBit f.heldMods mods)
    | .repeated => decide (0 < depth es e.1) || mods == 0#32

/-- **The invariant**: the holds are within the depth of their keys, and the modifier is
not stuck. -/
structure NotStuck (b : Fin 32) (depth : KeyAddr → ℤ) (s : XkbServerState) : Prop where
  within : Within depth (s.holds b)
  bit : ModBit.AtMost (s.modBit b) (holders (s.holds b)).ncard

theorem notStuck_new (km : XkbKeymap) (m : LegacyMode) (b : Fin 32) :
    NotStuck b (keyDepth km []) (legacyStateNew km m) := by
  have hnone : ∀ i, (legacyStateNew km m).holds b i = none := fun i => rfl
  refine ⟨⟨?_, ?_, ?_⟩, ⟨AtMost.zero _, fun h => ?_⟩⟩
  · exact fun i h hi => absurd ((hnone i).symm.trans hi) (by simp)
  · exact fun i h hi => absurd ((hnone i).symm.trans hi) (by simp)
  · exact fun i h hi => absurd ((hnone i).symm.trans hi) (by simp)
  · have hbase : (legacyStateNew km m).components.baseMods = 0#32 := rfl
    rw [XkbServerState.modBit, hbase] at h
    exact absurd h (by simp)

/-- A release starts no hold. -/
theorem KeyTurn.set_up (h : KeyTurn b k .up s s' set clear) : set = false := by
  by_contra hset
  obtain ⟨i, hi, hi'⟩ := h.turn.start_iff.mp (by simpa using hset)
  obtain ⟨g', hg'⟩ := Option.ne_none_iff_exists'.mp hi'
  obtain ⟨g, hg, -⟩ | ⟨-, hm, -⟩ := h.turn.cases hg'
  · cases hi.symm.trans hg
  · exact hm rfl

/-- Only a release ends a hold. -/
theorem KeyTurn.clear_of_ne_up (h : KeyTurn b k dir s s' set clear) (hdir : dir ≠ .up) :
    clear = false := by
  by_contra hclear
  exact hdir (h.clears (by simpa using hclear)).1

/-- The holds stay within the depth of their keys. -/
theorem KeyTurn.within (h : KeyTurn b k dir s s' set clear) (hk : keyOf km kc = some k)
    (hs : Within (keyDepth km es) (s.holds b)) (hmatched : 0 ≤ depth es kc)
    (hrep : dir = .repeated → set = true → 1 ≤ depth es kc) :
    Within (keyDepth km (es ++ [(kc, dir)])) (s'.holds b) := by
  have hdepth : keyDepth km es k.addr = depth es kc := keyDepth_of_keyOf hk
  refine h.turn.within hs (keyDepth_append_self hk)
    (fun _ hne => keyDepth_append_of_ne hk hne) (fun _ => hdepth ▸ hmatched) ?_
  intro hmove hset
  rw [hdepth]
  refine hrep ?_ hset
  cases dir <;> first | rfl | exact absurd hmove (by decide)

/-- A key whose level has a modifier repeats only when it is down. -/
theorem one_le_depth {mods : BitVec 32} (h : (decide (0 < depth es kc) || mods == 0#32) = true)
    (hb : mods.getLsbD b = true) : 1 ≤ depth es kc := by
  rw [Bool.or_eq_true, decide_eq_true_eq, beq_iff_eq] at h
  rcases h with hpos | hzero
  · omega
  · rw [hzero] at hb
    exact absurd hb (by simp)

section Once

/-- A pressed key has no latch that holds a modifier which the press sets. -/
theorem holdsOnce_down (hk : eventKey km kc .down = some k)
    (hturn : KeyTurn b k .down s s' set clear) (honce : holdsOnce km s es (kc, .down) = true)
    (hset : set = true) (hg : s.holds b i = some g) (hkey : g.key = k.addr) : g.latch = false := by
  by_contra hlatch
  obtain ⟨f, hf, hb, rfl⟩ := mem_of_holds hg
  simp only [holdsOnce, hk, all_eq_true] at honce
  have hshared : anyBit f.heldMods (levelMods (xkbKeyGetActions s.toXkbState k.key)) = true :=
    (anyBit_iff _ _).mpr ⟨b, hb, hturn.level hset⟩
  have hf' := honce f hf
  simp_all

/-- A key that repeats and sets a modifier is down. -/
theorem holdsOnce_repeated (hk : eventKey km kc .repeated = some k)
    (hturn : KeyTurn b k .repeated s s' set clear)
    (honce : holdsOnce km s es (kc, .repeated) = true) (hset : set = true) : 1 ≤ depth es kc := by
  simp only [holdsOnce, hk] at honce
  exact one_le_depth honce (hturn.level hset)

end Once

/-- **A handled key event keeps the invariant.** -/
theorem NotStuck.step (h : NotStuck b (keyDepth km es) s) (hk : eventKey km kc dir = some k)
    (hturn : KeyTurn b k dir s s' set clear) (hmatched : 0 ≤ depth es kc)
    (honce : holdsOnce km s es (kc, dir) = true) :
    NotStuck b (keyDepth km (es ++ [(kc, dir)])) s' := by
  have hfin := holds_finite s b
  have hfin' := holds_finite s' b
  refine ⟨hturn.within (keyOf_of_eventKey hk) h.within hmatched ?_, ?_⟩
  · rintro rfl
    exact holdsOnce_repeated hk hturn honce
  · have hbefore : ModBit.AtMost
        ⟨s.modKeyCount b, s.components.baseMods.getLsbD b, set, clear⟩
          (holders (s.holds b)).ncard :=
      h.bit.congr rfl rfl
    -- the counter is raised with the holders, and lowered no more than they are
    suffices ∃ n, (holders (s.holds b)).ncard + (if set then 1 else 0) ≤ n ∧
        n ≤ (holders (s'.holds b)).ncard + if clear then 1 else 0 by
      obtain ⟨n, hset, hclear⟩ := this
      refine ((hbefore.applySet hset).applyClear ?_).congr hturn.count hturn.depressed
      rw [ModBit.applySet_clear]
      exact hclear
    cases dir with
    | up =>
      obtain rfl := hturn.set_up
      exact ⟨_, le_refl _, hturn.turn.ncard_release h.within hfin'⟩
    | down =>
      have hle := hturn.turn.ncard_press h.within hfin hfin'
        fun hset _ _ hg => holdsOnce_down hk hturn honce hset hg
      exact ⟨_, hle, Nat.le_add_right _ _⟩
    | repeated => exact ⟨_, hturn.turn.ncard_rep hfin hfin', Nat.le_add_right _ _⟩

/-- **The invariant holds along every run** whose steps hold each modifier once. -/
theorem notStuck_keyRun (km : XkbKeymap) (m : LegacyMode) (b : Fin 32) (hmatched : Matched es)
    (honce : Runs.History (fun pre e => holdsOnce km (keyRun km m pre) pre e = true) es) :
    NotStuck b (keyDepth km es) (keyRun km m es) := by
  refine keyRun_invariant (P := NotStuck b) (notStuck_new km m b)
    fun {pre kc dir _} hpre hk ih => ?_
  obtain ⟨set, clear, hturn⟩ := keyTurn_handleKey
    (serverReachable_keyRun km m).filtersOk (keyOf_of_eventKey hk) dir
  exact ih.step hk hturn (hmatched pre ((prefix_append ..).trans hpre) kc) (honce pre _ hpre)

/-- **No stuck modifiers**: in every run in which no key is released more often than it
was pressed and no modifier is held twice by one key, whenever all keys are released no
modifier is depressed and no key is counted. -/
theorem no_stuck_modifiers (km : XkbKeymap) (m : LegacyMode) {es : List (ℕ × KeyDirection)}
    (hmatched : Matched es)
    (honce : Runs.History (fun pre e => holdsOnce km (keyRun km m pre) pre e = true) es)
    (hreleased : ∀ kc, depth es kc = 0) :
    (keyRun km m es).components.baseMods = 0#32 ∧ ∀ i, (keyRun km m es).modKeyCount i = 0 := by
  have hbit : ∀ b, ModBit.AtMost ((keyRun km m es).modBit b) 0 := by
    intro b
    obtain ⟨hwithin, hbit⟩ := notStuck_keyRun km m b hmatched honce
    rwa [hwithin.holders_eq_empty (keyDepth_eq_zero hreleased), ncard_empty] at hbit
  constructor
  · refine BitVec.eq_of_getLsbD_eq fun i hi => ?_
    rw [BitVec.getLsbD_zero]
    by_contra hd
    exact absurd ((hbit ⟨i, hi⟩).depressed (Bool.of_not_eq_false hd)) (lt_irrefl 0)
  · exact fun i => (hbit i).count.eq_zero

/-- A key that latches the first modifier, and sets it when it is on already. -/
def latchKeymap : XkbKeymap where
  numKeysLow := 1
  keys := [twoLevelKey 0 1#32 [latchMods 1#32] [setMods 1#32]]

/-- Tapping the key of `Xkbcommon.latchKeymap` twice leaves no modifier depressed. -/
theorem no_stuck_modifiers_taps :
    (keyRun latchKeymap .mixed [(0, .down), (0, .up), (0, .down), (0, .up)]).components.baseMods =
        0#32 ∧
      ∀ i, (keyRun latchKeymap .mixed [(0, .down), (0, .up), (0, .down), (0, .up)]).modKeyCount i =
        0 := by
  refine no_stuck_modifiers latchKeymap .mixed ?_ ?_ (depth_eq_zero ?_) <;> decide +kernel

/-- Pressed twice before it is released twice, the key of `Xkbcommon.latchKeymap` leaves the
first modifier depressed. -/
theorem stuck_modifier :
    Matched [(0, .down), (0, .down), (0, .up), (0, .up)] ∧
      (∀ kc, depth [(0, .down), (0, .down), (0, .up), (0, .up)] kc = 0) ∧
      (keyRun latchKeymap .mixed [(0, .down), (0, .down), (0, .up), (0, .up)]).components.baseMods =
        1#32 := by
  refine ⟨?_, depth_eq_zero ?_, ?_⟩ <;> decide +kernel

/-! ### Held modifiers stay depressed -/

/-- The modifiers that a key holds. -/
def heldByKey (s : XkbServerState) (addr : KeyAddr) : BitVec 32 :=
  s.filters.foldr (fun f mods => if f.key = addr then f.heldMods ||| mods else mods) 0#32

theorem mem_of_heldByKey {addr : KeyAddr} (h : (heldByKey s addr).getLsbD b = true) :
    ∃ f ∈ s.filters, f.key = addr ∧ f.heldMods.getLsbD b = true := by
  unfold heldByKey at h
  generalize s.filters = filters at h ⊢
  induction filters with
  | nil => exact absurd h (by simp)
  | cons f filters ih =>
    rw [foldr_cons] at h
    split at h
    · rename_i hkey
      rw [BitVec.getLsbD_or, Bool.or_eq_true_iff] at h
      rcases h with h | h
      · exact ⟨f, mem_cons_self, hkey, h⟩
      · obtain ⟨f', hf', h'⟩ := ih h
        exact ⟨f', mem_cons_of_mem f hf', h'⟩
    · obtain ⟨f', hf', h'⟩ := ih h
      exact ⟨f', mem_cons_of_mem f hf', h'⟩

/-- **A key clears only what it holds**: a depressed modifier of a pending latch of the
released key is held by the key itself; a counter that is to be raised is not at its
maximum; and only keys that are down repeat, or the level has no modifiers. -/
def clearsOwn (km : XkbKeymap) (s : XkbServerState) (es : List (ℕ × KeyDirection))
    (e : ℕ × KeyDirection) : Bool :=
  match eventKey km e.1 e.2 with
  | none => true
  | some k =>
    let mods := levelMods (xkbKeyGetActions s.toXkbState k.key)
    match e.2 with
    | .up => s.filters.all fun f =>
        !anyBit (f.unlatches k) (s.components.baseMods &&& ~~~heldByKey s k.addr)
    | .down => (List.finRange 32).all fun i =>
        !mods.getLsbD i || decide (s.modKeyCount i < 0x7fff)
    | .repeated => (decide (0 < depth es e.1) || mods == 0#32) &&
        (List.finRange 32).all fun i => !mods.getLsbD i || decide (s.modKeyCount i < 0x7fff)

/-- **The invariant**: the holds are within the depth of their keys, and the modifier is
depressed while it is held. -/
structure StaysHeld (b : Fin 32) (depth : KeyAddr → ℤ) (s : XkbServerState) : Prop where
  within : Within depth (s.holds b)
  bit : ModBit.AtLeast (s.modBit b) (holders (s.holds b)).ncard

theorem staysHeld_new (km : XkbKeymap) (m : LegacyMode) (b : Fin 32) :
    StaysHeld b (keyDepth km []) (legacyStateNew km m) := by
  have hempty : holders ((legacyStateNew km m).holds b) = ∅ := by
    refine eq_empty_of_forall_notMem ?_
    rintro p ⟨i, h, hi, -⟩
    exact absurd hi (by simp [legacyStateNew, xkbServerStateInit, XkbServerState.holds, Frame.holds,
      Frame.slot, Slots.busyAt])
  refine ⟨(notStuck_new km m b).within, ?_⟩
  rw [hempty, ncard_empty]
  exact ⟨⟨Int.le_refl 0, show (0 : ℤ) < 0x8000 by decide⟩, fun h => absurd h (lt_irrefl 0)⟩

section Own

/-- A counter that is raised is not at its maximum. -/
theorem clearsOwn_count (hk : eventKey km kc dir = some k)
    (hturn : KeyTurn b k dir s s' set clear) (hown : clearsOwn km s es (kc, dir) = true)
    (hset : set = true) : s.modKeyCount b < 0x7fff := by
  have hlevel := hturn.level hset
  have hall : ((finRange 32).all fun i =>
      !(levelMods (xkbKeyGetActions s.toXkbState k.key)).getLsbD i ||
        decide (s.modKeyCount i < 0x7fff)) = true := by
    cases dir with
    | up => exact absurd hset (by simp [hturn.set_up])
    | down => simpa only [clearsOwn, hk] using hown
    | repeated =>
      simp only [clearsOwn, hk, Bool.and_eq_true] at hown
      exact hown.2
  have hb := all_eq_true.mp hall b (mem_finRange b)
  rw [hlevel] at hb
  simpa using hb

/-- A modifier that is cleared is held by the released key, or not depressed. -/
theorem clearsOwn_up (hk : eventKey km kc .up = some k)
    (hturn : KeyTurn b k .up s s' set clear) (hown : clearsOwn km s es (kc, .up) = true)
    (hclear : clear = true) :
    (∃ i g, s.holds b i = some g ∧ g.key = k.addr) ∨
      s.components.baseMods.getLsbD b = false := by
  rcases (hturn.clears hclear).2 with hheld | ⟨f, hf, hb⟩
  · exact .inl hheld
  · by_cases hbase : s.components.baseMods.getLsbD b = true
    · left
      simp only [clearsOwn, hk, all_eq_true, Bool.not_eq_true'] at hown
      have hheld : (heldByKey s k.addr).getLsbD b = true := by
        by_contra hnot
        refine absurd ((anyBit_iff _ _).mpr ⟨b, hb, ?_⟩) (Bool.eq_false_iff.mp (hown f hf))
        rw [BitVec.getLsbD_and, BitVec.getLsbD_not, hbase, Bool.eq_false_iff.mpr hnot]
        simp
      obtain ⟨f', hf', hkey, hb'⟩ := mem_of_heldByKey hheld
      obtain ⟨i, hi⟩ := holds_of_mem hf' hb'
      exact ⟨i, _, hi, hkey⟩
    · exact .inr (by simpa using hbase)

end Own

/-- **A handled key event keeps the invariant**, in an alternating history. -/
theorem StaysHeld.step (h : StaysHeld b (keyDepth km es) s) (hk : eventKey km kc dir = some k)
    (hturn : KeyTurn b k dir s s' set clear) (halt : Alternating (es ++ [(kc, dir)]))
    (hown : clearsOwn km s es (kc, dir) = true) :
    StaysHeld b (keyDepth km (es ++ [(kc, dir)])) s' := by
  have hkey := keyOf_of_eventKey hk
  obtain ⟨hdown, hup⟩ := halt.depth_of_last
  have hdepth : keyDepth km es k.addr = depth es kc := keyDepth_of_keyOf hkey
  have hfin := holds_finite s b
  refine ⟨hturn.within hkey h.within (halt es (prefix_append ..) kc).1 ?_, ?_⟩
  · rintro rfl hset
    simp only [clearsOwn, hk, Bool.and_eq_true] at hown
    exact one_le_depth hown.1 (hturn.level hset)
  · have hbefore : ModBit.AtLeast
        ⟨s.modKeyCount b, s.components.baseMods.getLsbD b, set, clear⟩
          (holders (s.holds b)).ncard :=
      h.bit.congr rfl rfl
    have hstart : (holders (s'.holds b)).ncard ≤
          (holders (s.holds b)).ncard + (if set then 1 else 0) → clear = false →
        ModBit.AtLeast (s'.modBit b) (holders (s'.holds b)).ncard := by
      rintro hle rfl
      refine ((hbefore.applySet (clearsOwn_count hk hturn hown) hle).applyClear ?_ fun _ =>
        le_refl _).congr hturn.count hturn.depressed
      rw [ModBit.applySet_clear]
      exact fun h => absurd h Bool.false_ne_true
    cases dir with
    | down =>
      refine hstart ?_ (hturn.clear_of_ne_up (by decide))
      refine hturn.turn.ncard_le_insert (by decide) hfin fun _ i g hg hgkey => ?_
      -- the key was up, so it holds nothing
      have hpos := h.within.pos i g hg
      have hle := h.within.le i g hg
      rw [hgkey, hdepth, hdown rfl] at hle
      omega
    | repeated =>
      refine hstart ?_ (hturn.clear_of_ne_up (by decide))
      exact hturn.turn.ncard_le_insert (by decide) hfin fun h => absurd h (by decide)
    | up =>
      obtain rfl := hturn.set_up
      have hone : ∀ i g, s.holds b i = some g → g.key = k.addr → g.count = 1 := by
        intro i g hg hgkey
        have hpos := h.within.pos i g hg
        have hle := h.within.le i g hg
        rw [hgkey, hdepth, hup rfl] at hle
        omega
      have hsub := hturn.turn.holders_subset_sdiff fun i g hg hgkey => (hone i g hg hgkey).le
      refine ((hbefore.applySet (fun h => absurd h Bool.false_ne_true) (le_refl _)).applyClear ?_
        fun _ => ncard_le_ncard (hsub.trans sdiff_subset) hfin).congr hturn.count hturn.depressed
      rw [ModBit.applySet_clear]
      intro hclear
      rcases clearsOwn_up hk hturn hown hclear with ⟨i, g, hg, hgkey⟩ | hbase
      · have hmem : (k.addr, 1) ∈ holders (s.holds b) :=
          ⟨i, g, hg, by rw [hgkey, hone i g hg hgkey]⟩
        have hle := ncard_le_ncard hsub (hfin.subset sdiff_subset)
        have := ncard_sdiff_singleton_add_one hmem hfin
        exact .inl (by omega)
      · have hempty : (holders (s.holds b)).ncard = 0 := by
          by_contra hpos
          have hd := h.bit.depressed (pos_of_ne_zero hpos)
          cases hbase.symm.trans hd
        have := ncard_le_ncard (hsub.trans sdiff_subset) hfin
        exact .inr (by omega)

/-- **The invariant holds along every alternating run** whose keys clear only what they
hold. -/
theorem staysHeld_keyRun (km : XkbKeymap) (m : LegacyMode) (b : Fin 32) (halt : Alternating es)
    (hown : Runs.History (fun pre e => clearsOwn km (keyRun km m pre) pre e = true) es) :
    StaysHeld b (keyDepth km es) (keyRun km m es) := by
  refine keyRun_invariant (P := StaysHeld b) (staysHeld_new km m b)
    fun {pre _ dir _} hpre hk ih => ?_
  obtain ⟨set, clear, hturn⟩ := keyTurn_handleKey
    (serverReachable_keyRun km m).filtersOk (keyOf_of_eventKey hk) dir
  exact ih.step hk hturn (fun es hes => halt es (hes.trans hpre)) (hown pre _ hpre)

/-- A hold lasts until its key is released. -/
theorem holds_lasts (km : XkbKeymap) (m : LegacyMode) {mid : List (ℕ × KeyDirection)}
    (hk : keyOf km kc = some k) (hup : (kc, .up) ∉ mid) (hg : (keyRun km m es).holds b i = some g)
    (hkey : g.key = k.addr) :
    ∃ g', (keyRun km m (es ++ mid)).holds b i = some g' ∧ g'.key = k.addr := by
  induction mid using reverseRecOn with
  | nil => exact ⟨g, by rwa [append_nil], hkey⟩
  | append_singleton mid e ih =>
    obtain ⟨kc', dir⟩ := e
    rw [mem_append, not_or] at hup
    obtain ⟨g', hg', hkey'⟩ := ih hup.1
    rw [← append_assoc, keyRun_append_singleton, updateKey_keyRun]
    cases hk' : eventKey km kc' dir with
    | none => exact ⟨g', hg', hkey'⟩
    | some k' =>
      have hkOf := keyOf_of_eventKey hk'
      obtain ⟨set, clear, hturn⟩ := keyTurn_handleKey
        (serverReachable_keyRun km m).filtersOk hkOf dir
      have hnext := hturn.turn.next_eq hg'
      cases hn : g'.next k'.addr dir.move with
      | some g'' => exact ⟨g'', hnext.trans hn, (Hold.key_of_next hn).trans hkey'⟩
      | none =>
        -- only the release of the key itself ends its hold
        obtain ⟨haddr, hmove⟩ := Hold.eq_of_next_eq_none hn
        have hsame : k' = k := by
          have h := (keyOf_spec hkOf).2.2
          rw [← haddr, hkey', (keyOf_spec hk).2.2] at h
          exact (Option.some.inj h).symm
        have hkc : kc' = kc := by
          rw [← (keyOf_spec hkOf).2.1, hsame, (keyOf_spec hk).2.1]
        have hdir : dir = .up := by cases dir <;> first | rfl | exact absurd hmove (by decide)
        exact absurd (by rw [hkc, hdir]; exact mem_singleton_self _) hup.2

/-- The modifiers of a filter are depressed until its key is released. -/
theorem sub_heldMods_baseMods (km : XkbKeymap) (m : LegacyMode) {pre mid : List (ℕ × KeyDirection)}
    (halt : Alternating (pre ++ [(kc, .down)] ++ mid))
    (hown : Runs.History (fun pre e => clearsOwn km (keyRun km m pre) pre e = true)
      (pre ++ [(kc, .down)] ++ mid))
    (hup : (kc, .up) ∉ mid) (hk : keyOf km kc = some k) {f : XkbFilter}
    (hf : f ∈ (keyRun km m (pre ++ [(kc, .down)])).filters) (hkey : f.key = k.addr) :
    Sub f.heldMods (keyRun km m (pre ++ [(kc, .down)] ++ mid)).components.baseMods := by
  intro i hb
  have hi : i < 32 := BitVec.lt_of_getLsbD hb
  obtain ⟨j, hj⟩ := holds_of_mem (b := ⟨i, hi⟩) hf hb
  obtain ⟨g, hg, -⟩ := holds_lasts km m hk hup hj hkey
  refine (staysHeld_keyRun km m ⟨i, hi⟩ halt hown).bit.depressed ?_
  exact (ncard_pos (holds_finite _ _)).mpr ⟨_, j, g, hg, rfl⟩

/-- **A held modifier stays depressed**: in every alternating run whose keys clear only what
they hold, the modifiers of a filter of `SetMods` or `LockMods` that is there after the press of a
key are depressed until the key is released. These are the modifiers of its action; a `SetMods`
that unlocks on press holds those that it has set. -/
theorem held_modifiers_stay (km : XkbKeymap) (m : LegacyMode) {pre mid : List (ℕ × KeyDirection)}
    {kc : ℕ} (halt : Alternating (pre ++ [(kc, .down)] ++ mid))
    (hown : Runs.History (fun pre e => clearsOwn km (keyRun km m pre) pre e = true)
      (pre ++ [(kc, .down)] ++ mid))
    (hup : (kc, .up) ∉ mid) {k : KeyRef} (hk : keyOf km kc = some k) {f : XkbFilter}
    (hf : f ∈ (keyRun km m (pre ++ [(kc, .down)])).filters) (hkey : f.key = k.addr) :
    (f.func = some .modLock →
      Sub f.action.mods.mods.mask
        (keyRun km m (pre ++ [(kc, .down)] ++ mid)).components.baseMods) ∧
    (f.func = some .modSet →
      Sub f.priv (keyRun km m (pre ++ [(kc, .down)] ++ mid)).components.baseMods ∧
      (anyBit f.action.mods.flags actionUnlockOnPress = false →
        f.priv = f.action.mods.mods.mask)) := by
  have hheld := sub_heldMods_baseMods km m halt hown hup hk hf hkey
  constructor
  · intro hfunc
    rwa [XkbFilter.heldMods, hfunc] at hheld
  · intro hfunc
    rw [XkbFilter.heldMods, hfunc] at hheld
    exact ⟨hheld, setsMasks_keyRun km m _ f hf hfunc⟩

/-- A key that latches the first modifier or, with the third one on, sets the fourth; and
keys that set the third and the first modifier. -/
def pendingKeymap : XkbKeymap where
  maxKeyCode := 2
  numKeysLow := 3
  keys := [twoLevelKey 0 4#32 [latchMods 1#32] [setMods 8#32], oneLevelKey 1 [setMods 4#32],
    oneLevelKey 2 [setMods 1#32]]

/-- The first modifier stays depressed while the last key of `Xkbcommon.pendingKeymap` is
down and the other keys are used. -/
theorem held_modifiers_stay_tap :
    ∃ f ∈ (keyRun pendingKeymap .mixed ([] ++ [(2, .down)])).filters,
      f.func = some .modSet ∧ f.action.mods.mods.mask = 1#32 ∧
      Sub f.action.mods.mods.mask (keyRun pendingKeymap .mixed
        ([] ++ [(2, .down)] ++ [(0, .down), (0, .up), (1, .down)])).components.baseMods := by
  obtain ⟨f, hf, hkey, hfunc, hmods, hflags⟩ :
      ∃ f ∈ (keyRun pendingKeymap .mixed ([] ++ [(2, .down)])).filters,
        f.key = .key 2 ∧ f.func = some .modSet ∧ f.action.mods.mods.mask = 1#32 ∧
          anyBit f.action.mods.flags actionUnlockOnPress = false := by decide +kernel
  obtain ⟨hsub, hmask⟩ := (@held_modifiers_stay pendingKeymap .mixed []
    [(0, .down), (0, .up), (1, .down)] 2 (by decide +kernel) (by decide +kernel) (by decide)
    ⟨.key 2, oneLevelKey 2 [setMods 1#32]⟩ (by decide) f hf hkey).2 hfunc
  exact ⟨f, hf, hfunc, hmods, hmask hflags ▸ hsub⟩

/-- A key that locks the first modifier, and one that sets it but unlocks on press. -/
def unlockingKeymap : XkbKeymap where
  maxKeyCode := 1
  numKeysLow := 2
  keys :=
    [oneLevelKey 0 [{ type := .modLock, mods := { mods := { mods := 1#32, mask := 1#32 } } }],
      oneLevelKey 1
        [{ type := .modSet
           mods := { mods := { mods := 1#32, mask := 1#32 }, flags := unlockAndClear } }]]

/-- The first modifier is locked, and a key that sets it unlocks it instead: it is not depressed
while the key is down. -/
theorem held_modifier_unlocked :
    ∃ f ∈ (keyRun unlockingKeymap .mixed ([(0, .down), (0, .up)] ++ [(1, .down)])).filters,
      f.key = .key 1 ∧ f.func = some .modSet ∧ f.action.mods.mods.mask = 1#32 ∧
      Alternating ([(0, .down), (0, .up)] ++ [(1, .down)]) ∧
      ¬Sub f.action.mods.mods.mask
        (keyRun unlockingKeymap .mixed
          ([(0, .down), (0, .up)] ++ [(1, .down)])).components.baseMods := by
  obtain ⟨f, hf, hkey, hfunc, hmods⟩ :
      ∃ f ∈ (keyRun unlockingKeymap .mixed ([(0, .down), (0, .up)] ++ [(1, .down)])).filters,
        f.key = .key 1 ∧ f.func = some .modSet ∧ f.action.mods.mods.mask = 1#32 := by
    decide +kernel
  have hnone : (keyRun unlockingKeymap .mixed
      ([(0, .down), (0, .up)] ++ [(1, .down)])).components.baseMods = 0#32 := by decide +kernel
  refine ⟨f, hf, hkey, hfunc, hmods, by decide +kernel, ?_⟩
  rw [hmods, hnone]
  exact fun h => absurd (h 0 (by decide)) (by decide)

end Xkbcommon
