import Xkbcommon.BaseMods
import Xkbcommon.Holding

/-!
# A key event is a turn

The loop over the filters lets every filter see the event, and the loop over the actions
starts new ones. For one modifier the two loops make one turn of the table of holds
(`Holds.Turn`). The invariant of the first loop, `Xkbcommon.HoldInv`, is split at the slot
that the loop has reached: the slots before it have turned, and those ahead have changed
quietly at most – a filter that disables the sticky keys clears the latches, which fakes
key presses of its own.

`Xkbcommon.keyTurn_handleKey` is the result for the whole event: the turn reports to the
counters and to the depressed modifiers.
-/

namespace Xkbcommon

open Masks Holds XkbFilter Xkbcommon.Frame Option KeyDirection

variable {func : FilterFunc} {s : XkbServerState} {f : XkbFilter} {i : ℕ} {c : Bool}
  {fr₀ fr : Frame} {b : Fin 32} {k : KeyRef} {dir : KeyDirection}

section Loop

/-- A slot that is not in use holds nothing. -/
theorem hold_of_free (h : f.func = none) : f.hold b = none := hold_of_zero (by rw [heldMods, h])

theorem holds_of_getElem (hf : fr.state.filters[i]? = some f) : fr.holds b i = f.hold b := by
  rw [holds, slot_of_getElem hf, bind_busy hold_of_free]

/-- A quiet change does not make a latch of a real key pending. -/
theorem unlatches_of_quietAt {o o' : Option XkbFilter} (h : QuietAt o o')
    (hk : k.addr ≠ .syntheticKey) {f' : XkbFilter} (hf' : o' = some f')
    (hb : (f'.unlatches k).getLsbD b = true) :
    ∃ f, o = some f ∧ (f.unlatches k).getLsbD b = true := by
  have hcond : f'.func = some .modLatch ∧ f'.priv = latchPending ∧ f'.key = k.addr ∧
      anyBit f'.action.mods.flags actionLatchOnPress = false := by
    by_contra hnot
    rw [unlatches, if_neg hnot] at hb
    exact absurd hb (by simp)
  obtain ⟨hfunc, hpriv, hkey, hpress⟩ := hcond
  rcases h with ⟨f, g, ho, hg, hq⟩ | ⟨-, hsyn⟩
  · obtain rfl := some.inj (hg.symm.trans hf')
    refine ⟨f, ho, ?_⟩
    have hfunc₀ : f.func = some .modLatch := hq.func.symm.trans hfunc
    have hpriv₀ : f.priv = latchPending := by
      rcases hq.pending_iff.mp (.inl ⟨hfunc, hpriv⟩) with ⟨-, hp⟩ | ⟨hg', -⟩
      · exact hp
      · cases hfunc₀.symm.trans hg'
    rw [unlatches, if_pos ⟨hfunc, hpriv, hkey, hpress⟩, hq.mods] at hb
    rw [hq.latchFlags hfunc₀] at hpress
    rw [unlatches, if_pos ⟨hfunc₀, hpriv₀, hq.key.symm.trans hkey, hpress⟩]
    exact hb
  · exact absurd (hkey.symm.trans (hsyn f' hf').2) hk

/-- **The invariant of the loop over the filters**, for one modifier. -/
structure HoldInv (b : Fin 32) (k : KeyRef) (dir : KeyDirection) (fr₀ : Frame) (i : ℕ)
    (fr : Frame) (c : Bool) : Prop where
  slotsOk : SlotsOk fr
  footprint : Footprint fr₀ fr
  done : ∀ j < i, Turned k.addr dir.move (fr₀.holds b j) (fr.holds b j)
  ahead : ∀ j, i ≤ j → QuietAt (fr₀.slot j) (fr.slot j)
  sets_iff : fr.sets b = true ↔ ∃ j, fr₀.holds b j = none ∧ fr.holds b j ≠ none
  level : fr.sets b = true →
    (levelMods (xkbKeyGetActions fr₀.state.toXkbState k.key)).getLsbD b = true
  clears_of_dead : ∀ j, fr₀.holds b j ≠ none → fr.holds b j = none → fr.clears b = true
  clears : fr.clears b = true → dir = .up ∧
    ((∃ j h, fr₀.holds b j = some h ∧ h.key = k.addr) ∨
      ∃ j f, fr₀.slot j = some f ∧ (f.unlatches k).getLsbD b = true)
  repeated : dir = .repeated → fr.sets b = false
  consumed : dir = .repeated → ∀ j < i, ∀ h, fr₀.holds b j = some h → h.key = k.addr → c = true

theorem HoldInv.init (hok : SlotsOk fr₀) (hsets : fr₀.sets b = false)
    (hclears : fr₀.clears b = false) : HoldInv b k dir fr₀ 0 fr₀ false where
  slotsOk := hok
  footprint := .refl fr₀
  done := fun j hj => absurd hj (Nat.not_lt_zero j)
  ahead := fun j _ => .refl _
  sets_iff := by
    rw [hsets]
    exact ⟨fun h => absurd h (by decide), fun ⟨j, h, h'⟩ => absurd h h'⟩
  level := fun h => absurd (hsets.symm.trans h) (by decide)
  clears_of_dead := fun j h h' => absurd h' h
  clears := fun h => absurd (hclears.symm.trans h) (by decide)
  repeated := fun _ => hsets
  consumed := fun _ j hj => absurd hj (Nat.not_lt_zero j)

theorem HoldInv.skip (h : HoldInv b k dir fr₀ i fr c) (hf : fr.state.filters[i]? = some f)
    (hfunc : f.func = none) : HoldInv b k dir fr₀ (i + 1) fr c := by
  have hnone : fr.holds b i = none := by
    rw [holds_of_getElem hf]
    exact hold_of_free hfunc
  have hnone₀ : fr₀.holds b i = none := ((h.ahead i (le_refl i)).hold b).symm.trans hnone
  refine
    { h with
      done := fun j hj => ?_
      ahead := fun j hj => h.ahead j (by omega)
      consumed := fun hdir j hj g hg => ?_ }
  · rcases Nat.lt_succ_iff_lt_or_eq.mp hj with hj | rfl
    · exact h.done j hj
    · rw [hnone, hnone₀]
      exact .free
  · rcases Nat.lt_succ_iff_lt_or_eq.mp hj with hj | rfl
    · exact h.consumed hdir j hj g hg
    · cases hnone₀.symm.trans hg

/-- **One filter keeps the invariant.** -/
theorem HoldInv.call (km : XkbKeymap) (hk : k.addr.canHold = true) (hsyn : k.addr ≠ .syntheticKey)
    (h : HoldInv b k dir fr₀ i fr c) (hf : fr.state.filters[i]? = some f)
    (hfunc : f.func = some func) :
    HoldInv b k dir fr₀ (i + 1) ((func.call (clearAllLatchesAndLocks km) fr f k dir).store i)
      (c || (func.call (clearAllLatchesAndLocks km) fr f k dir).result == .consume) := by
  have hslot := slot_of_func hf hfunc
  have hstep : HoldStep b k dir fr f (func.call (clearAllLatchesAndLocks km) fr f k dir) :=
    holdStep_call_clearAll km h.slotsOk (h.slotsOk.slot hslot) hfunc
  have hstored := callStored_call km hk h.slotsOk hf hfunc dir
  generalize func.call (clearAllLatchesAndLocks km) fr f k dir = step at *
  have hother : ∀ j, j ≠ i → (step.store i).holds b j = fr.holds b j :=
    fun j hj => (hstored.other j hj).hold b
  have hself : (step.store i).holds b i = step.filter.hold b := holds_of_getElem hstored.self
  have hold₀ : fr₀.holds b i = f.hold b :=
    ((h.ahead i (le_refl i)).hold b).symm.trans (holds_of_getElem hf)
  have hold : fr.holds b i = f.hold b := holds_of_getElem hf
  -- the slots other than the one at hand keep their part
  have hdone : Turned k.addr dir.move (f.hold b) (step.filter.hold b) →
      ∀ j < i + 1, Turned k.addr dir.move (fr₀.holds b j) ((step.store i).holds b j) := by
    intro hturned j hj
    rcases Nat.lt_succ_iff_lt_or_eq.mp hj with hj | rfl
    · rw [hother j (by omega)]
      exact h.done j hj
    · rw [hold₀, hself]
      exact hturned
  have hahead := hstored.ahead h.ahead
  have hok := hstored.slotsOk
  have hfoot := h.footprint.trans hstored.footprint
  have hborn : f.hold b ≠ none ∨ step.filter.hold b = none →
      ((∃ j, fr₀.holds b j = none ∧ (step.store i).holds b j ≠ none) ↔
        ∃ j, fr₀.holds b j = none ∧ fr.holds b j ≠ none) := by
    intro hor
    refine exists_congr fun j => and_congr_right fun hj₀ => not_congr ?_
    by_cases hj : j = i
    · subst hj
      have hnone : f.hold b = none := hold₀.symm.trans hj₀
      rw [hself, hold, hnone, hor.resolve_left (not_not.mpr hnone)]
    · rw [hother j hj]
  have hdead : (f.hold b ≠ none → step.filter.hold b = none → step.frame.clears b = true) →
      (fr.clears b = true → step.frame.clears b = true) →
      ∀ j, fr₀.holds b j ≠ none → (step.store i).holds b j = none →
        step.frame.clears b = true := by
    intro hi hmono j hj₀ hj
    by_cases hji : j = i
    · subst hji
      exact hi (hold₀ ▸ hj₀) (hself.symm.trans hj)
    · exact hmono (h.clears_of_dead j hj₀ ((hother j hji).symm.trans hj))
  have hconsumed : (∀ g, f.hold b = some g → g.key = k.addr → dir = .repeated →
      step.result = .consume) → dir = .repeated → ∀ j < i + 1, ∀ g, fr₀.holds b j = some g →
      g.key = k.addr → (c || step.result == .consume) = true := by
    intro hresult hdir j hj g hg hkey
    rcases Nat.lt_succ_iff_lt_or_eq.mp hj with hj | rfl
    · rw [h.consumed hdir j hj g hg hkey, Bool.true_or]
    · rw [hresult g (hold₀.symm.trans hg) hkey hdir]
      simp
  cases hstep with
  | kept g hg hnext hsets hclears hresult =>
    have hne : f.hold b ≠ none := by simp [hg]
    refine ⟨hok, hfoot, hdone ?_, hahead, ?_, fun hs => h.level (hsets ▸ hs), hdead ?_ ?_, ?_,
      fun hdir => hsets.trans (h.repeated hdir), ?_⟩
    · rw [hg, hnext]
      exact .kept g
    · rw [hborn (.inl hne), ← h.sets_iff]
      exact Bool.eq_iff_iff.mp hsets
    · intro _ hnone
      rw [hclears, ← hnext, hnone, isNone_none, Bool.or_true]
    · intro hc
      rw [hclears, hc, Bool.true_or]
    · intro hc
      rcases Bool.or_eq_true_iff.mp (hclears.symm.trans hc) with hc | hnone
      · exact h.clears hc
      · obtain ⟨hkey, hmove⟩ := Hold.eq_of_next_eq_none (isNone_iff_eq_none.mp hnone)
        exact ⟨move_injective hmove, .inl ⟨i, g, hold₀.trans hg, hkey⟩⟩
    · refine hconsumed fun g' hg' hkey => ?_
      obtain rfl := some.inj (hg.symm.trans hg')
      exact hresult hkey
  | promoted hg hg' hdir hsets hclears hlevel =>
    refine ⟨hok, hfoot, hdone ?_, hahead, ?_, fun _ => ?_, hdead ?_ ?_, ?_, ?_, ?_⟩
    · rw [hg, hg']
      exact .born false (by rw [hdir]; decide)
    · refine ⟨fun _ => ⟨i, hold₀.trans hg, ?_⟩, fun _ => hsets⟩
      rw [hself, hg']
      simp
    · rw [h.footprint.xkbKeyGetActions] at hlevel
      exact hlevel
    · exact fun hne => absurd hg hne
    · exact fun hc => hclears.trans hc
    · exact fun hc => h.clears (hclears.symm.trans hc)
    · exact fun hdir' => absurd (hdir.symm.trans hdir') (by decide)
    · exact hconsumed fun g' hg'' => absurd (hg.symm.trans hg'') (by simp)
  | idle hg hg' hsets hclears =>
    refine ⟨hok, hfoot, hdone ?_, hahead, ?_, fun hs => h.level (hsets ▸ hs), hdead ?_ ?_, ?_,
      fun hdir => hsets.trans (h.repeated hdir), ?_⟩
    · rw [hg, hg']
      exact .free
    · rw [hborn (.inr hg'), ← h.sets_iff]
      exact Bool.eq_iff_iff.mp hsets
    · exact fun hne => absurd hg hne
    · rintro hc
      rcases hclears with heq | ⟨heq, -⟩
      · exact heq.trans hc
      · exact heq
    · intro hc
      rcases hclears with heq | ⟨-, hdir, hb⟩
      · exact h.clears (heq.symm.trans hc)
      · obtain ⟨f₀, hf₀, hb₀⟩ := unlatches_of_quietAt (h.ahead i (le_refl i)) hsyn hslot hb
        exact ⟨hdir, .inr ⟨i, f₀, hf₀, hb₀⟩⟩
    · exact hconsumed fun g' hg'' => absurd (hg.symm.trans hg'') (by simp)

end Loop

/-! ### The whole event -/

/-- **A key event is a turn**, for one modifier: the modifiers that it sets are among those
of the actions of its level, and those that it clears were held by its key, or are those of
a pending latch of its key. -/
structure HoldTurn (b : Fin 32) (k : KeyRef) (dir : KeyDirection) (fr₀ fr : Frame) : Prop where
  slotsOk : SlotsOk fr
  footprint : Footprint fr₀ fr
  turn : Turn k.addr dir.move (fr₀.holds b) (fr.holds b) (fr.sets b) (fr.clears b)
  level : fr.sets b = true →
    (levelMods (xkbKeyGetActions fr₀.state.toXkbState k.key)).getLsbD b = true
  clears : fr.clears b = true → dir = .up ∧
    ((∃ j h, fr₀.holds b j = some h ∧ h.key = k.addr) ∨
      ∃ j f, fr₀.slot j = some f ∧ (f.unlatches k).getLsbD b = true)

section Actions

variable {km : XkbKeymap} {a : XkbAction}

/-- The end of the loop over the filters: past the slot that it reached nothing is held. -/
theorem HoldInv.holdTurn (h : HoldInv b k dir fr₀ i fr c)
    (hend : i = 3 * fr₀.state.filters.length ∨ fr.state.filters.length ≤ i) :
    HoldTurn b k dir fr₀ fr ∧
      (c = false → dir = .repeated → ∀ j g, fr₀.holds b j = some g → g.key ≠ k.addr) := by
  have hpast : ∀ j, i ≤ j → fr₀.holds b j = none ∧ fr.holds b j = none := by
    intro j hj
    have hsame : fr.holds b j = fr₀.holds b j := (h.ahead j hj).hold b
    have hnone : fr₀.holds b j = none := bind_slot_past hend hj hsame
    exact ⟨hnone, hsame.trans hnone⟩
  refine ⟨⟨h.slotsOk, h.footprint, ⟨fun j => ?_, h.sets_iff, h.clears_of_dead, ?_⟩, h.level,
    h.clears⟩, ?_⟩
  · rcases lt_or_ge j i with hj | hj
    · exact h.done j hj
    · rw [(hpast j hj).1, (hpast j hj).2]
      exact .free
  · intro hmove hstart
    cases (h.repeated (move_injective hmove)).symm.trans hstart
  · intro hc hdir j g hg hkey
    rcases lt_or_ge j i with hj | hj
    · cases hc.symm.trans (h.consumed hdir j hj g hg hkey)
    · cases (hpast j hj).1.symm.trans hg

/-- The handler of a modifier filter is that of a modifier action. -/
theorem type_of_filterFunc {t : XkbActionType} (h : t.filterFunc = some func)
    (hmod : func = .modSet ∨ func = .modLatch ∨ func = .modLock) :
    t = .modSet ∨ t = .modLatch ∨ t = .modLock := by
  rcases hmod with rfl | rfl | rfl <;> cases t <;> simp [XkbActionType.filterFunc] at h ⊢

theorem modMask_of_filterFunc (hfunc : (resolveAction km s a).type.filterFunc = some func)
    (hmod : func = .modSet ∨ func = .modLatch ∨ func = .modLock) :
    a.modMask = (resolveAction km s a).mods.mods.mask := by
  have htype : a.type = .modSet ∨ a.type = .modLatch ∨ a.type = .modLock := by
    have hresolved := type_of_filterFunc hfunc hmod
    rcases resolveAction_type km with h | ⟨h, -⟩ | ⟨-, h⟩
    · rwa [h] at hresolved
    · exact .inl h
    · rw [h] at hresolved
      exact absurd hresolved (by simp)
  rw [resolveAction_mods]
  rcases htype with h | h | h <;> rw [XkbAction.modMask, h]

/-- Only the modifier filters hold modifiers. -/
theorem func_of_heldMods (hfunc : f.func = some func ∨ f.func = none)
    (hb : f.heldMods.getLsbD b = true) :
    f.func = some func ∧ (func = .modSet ∨ func = .modLatch ∨ func = .modLock) := by
  rcases hfunc with h | h
  · refine ⟨h, ?_⟩
    rw [heldMods, h] at hb
    cases func <;> simp_all
  · rw [heldMods, h] at hb
    exact absurd hb (by simp)

/-- **Starting an action keeps the turn.** -/
theorem HoldTurn.startFilter (h : HoldTurn b k dir fr₀ fr) (hk : k.addr.canHold = true)
    (hdir : dir ≠ .up) (hrep : dir = .repeated → ∀ j g, fr₀.holds b j = some g → g.key ≠ k.addr)
    (ha : a ∈ xkbKeyGetActions fr₀.state.toXkbState k.key)
    (hfunc : (resolveAction km fr.state a).type.filterFunc = some func) :
    HoldTurn b k dir fr₀ (fr.startFilter k.addr (resolveAction km fr.state a) func).1 := by
  have hok := h.slotsOk.startFilter hk (resolveAction km fr.state a) func
  have hfoot := h.footprint.trans
    (footprint_startFilter fr k.addr (resolveAction km fr.state a) func)
  obtain ⟨i, f₀, hkey, haction, hf₀, hcnt, hfree, ⟨filters, heq, -⟩, hslots⟩ := slot_startFilter
  have hstarted := started_start fr hf₀
  generalize func.start fr f₀ = r at hstarted heq hslots
  generalize (fr.startFilter k.addr (resolveAction km fr.state a) func).1 = fr' at *
  have hsets : fr'.sets b = (fr.sets b || r.2.heldMods.getLsbD b) := by
    rw [heq]
    exact hstarted.sets b
  have hclears : fr'.clears b = fr.clears b := by
    rw [heq]
    exact hstarted.clears b
  have hother : ∀ j, j ≠ i → fr'.holds b j = fr.holds b j := by
    intro j hj
    rw [holds, hslots j, if_neg hj]
    rfl
  have hself : fr'.holds b i = r.2.hold b := by
    rw [holds, hslots i, if_pos rfl, bind_busy hold_of_free]
  have hnone : fr.holds b i = none := by
    rw [holds, hfree]
    rfl
  have hmove : dir.move ≠ .release := fun h => hdir (move_injective h)
  have hnone₀ : fr₀.holds b i = none := by
    cases hi : fr₀.holds b i with
    | none => rfl
    | some g =>
      have hnext := (h.turn.next_eq hi).symm.trans hnone
      exact absurd (Hold.eq_of_next_eq_none hnext).2 hmove
  have hheld : r.2.hold b ≠ none ↔ r.2.heldMods.getLsbD b = true := by
    unfold hold
    split <;> simp_all
  refine ⟨hok, hfoot, ⟨fun j => ?_, ?_, fun j hj₀ hj => ?_, fun hrep' _ => ?_⟩, fun hs => ?_,
    fun hc => h.clears (hclears.symm.trans hc)⟩
  · by_cases hj : j = i
    · subst hj
      rw [hnone₀, hself]
      by_cases hb : r.2.heldMods.getLsbD b = true
      · rw [hold, if_pos hb, hstarted.key, hkey, hstarted.refcnt, hcnt]
        exact .born _ hmove
      · rw [hold, if_neg hb]
        exact .free
    · rw [hother j hj]
      exact h.turn.slot j
  · rw [hsets, Bool.or_eq_true_iff, h.turn.start_iff, ← hheld, ← hself]
    constructor
    · rintro (⟨j, hj₀, hj⟩ | hi)
      · have hji : j ≠ i := fun heq => hj (heq ▸ hnone)
        exact ⟨j, hj₀, by rwa [hother j hji]⟩
      · exact ⟨i, hnone₀, hi⟩
    · rintro ⟨j, hj₀, hj⟩
      by_cases hji : j = i
      · exact .inr (hji ▸ hj)
      · exact .inl ⟨j, hj₀, by rwa [hother j hji] at hj⟩
  · have hji : j ≠ i := fun heq => hj₀ (heq ▸ hnone₀)
    rw [hclears]
    exact h.turn.stop_of_dead j hj₀ ((hother j hji).symm.trans hj)
  · exact hrep (move_injective hrep')
  · rcases Bool.or_eq_true_iff.mp (hsets.symm.trans hs) with hs | hb
    · exact h.level hs
    · have hmod := (func_of_heldMods (hf₀ ▸ hstarted.func) hb).2
      refine sub_levelMods ha _ ?_
      rw [modMask_of_filterFunc hfunc hmod, ← haction]
      exact hstarted.sub _ hb

/-- **The filters and the actions of a key event make a turn.** -/
theorem holdTurn_xkbFilterApplyAll (km : XkbKeymap) (hok : SlotsOk fr₀)
    (hk : k.addr.canHold = true) (hsyn : k.addr ≠ .syntheticKey) (hsets : fr₀.sets b = false)
    (hclears : fr₀.clears b = false) : HoldTurn b k dir fr₀ (xkbFilterApplyAll km fr₀ k dir) := by
  obtain ⟨c, h, -⟩ := applyAllWith_rec km (P := HoldInv b k dir fr₀)
    (Q := fun c fr => HoldTurn b k dir fr₀ fr ∧
      (c = false → dir = .repeated → ∀ j g, fr₀.holds b j = some g → g.key ≠ k.addr))
    (fun _ _ _ _ h hf hfunc => h.skip hf hfunc)
    (fun _ _ _ _ _ h hf hfunc => h.call km hk hsyn hf hfunc)
    (fun _ _ _ h hend => h.holdTurn hend)
    (fun fr fr' a func hdir h h' ha hfunc => by
      rw [h.1.footprint.xkbKeyGetActions] at ha
      exact ⟨h'.1.startFilter hk hdir (h'.2 rfl) ha hfunc, h'.2⟩) (.init hok hsets hclears)
  exact h

end Actions

/-! ### The state after the event -/

/-- The table of the holds on one modifier, in a server state. -/
def XkbServerState.holds (s : XkbServerState) (b : Fin 32) : Table KeyAddr :=
  (⟨s, none⟩ : Frame).holds b

theorem holds_finite (s : XkbServerState) (b : Fin 32) : (holders (s.holds b)).Finite := by
  refine holders_finite (n := s.filters.length) fun i hi => ?_
  exact bind_slot_of_length_le hi

/-- A filter that holds a modifier, as an entry of the table. -/
theorem holds_of_mem (hf : f ∈ s.filters) (hb : f.heldMods.getLsbD b = true) :
    ∃ i, s.holds b i = some ⟨f.key, f.refcnt, f.func == some .modLatch⟩ := by
  obtain ⟨i, hi⟩ := List.getElem?_of_mem hf
  refine ⟨i, ?_⟩
  rw [XkbServerState.holds, holds_of_getElem hi, hold, if_pos hb]

/-- An entry of the table, as a filter that holds a modifier. -/
theorem mem_of_holds {h : Hold KeyAddr} (hi : s.holds b i = some h) :
    ∃ f ∈ s.filters, f.heldMods.getLsbD b = true ∧
      h = ⟨f.key, f.refcnt, f.func == some .modLatch⟩ := by
  obtain ⟨f, hf, hhold⟩ := bind_eq_some_iff.mp hi
  unfold hold at hhold
  split at hhold
  · exact ⟨f, Slots.mem_of_busyAt hf, ‹_›, (some.inj hhold).symm⟩
  · cases hhold

/-- **What a key event does to one modifier of a server state**: a turn of the table, whose
report drives the counter and the depressed modifier. -/
structure KeyTurn (b : Fin 32) (k : KeyRef) (dir : KeyDirection) (s s' : XkbServerState)
    (set clear : Bool) : Prop where
  turn : Turn k.addr dir.move (s.holds b) (s'.holds b) set clear
  count : s'.modKeyCount b = (ModBit.applyClear
    (ModBit.applySet ⟨s.modKeyCount b, s.components.baseMods.getLsbD b, set, clear⟩)).count
  depressed : s'.components.baseMods.getLsbD b = (ModBit.applyClear
    (ModBit.applySet ⟨s.modKeyCount b, s.components.baseMods.getLsbD b, set, clear⟩)).depressed
  level : set = true → (levelMods (xkbKeyGetActions s.toXkbState k.key)).getLsbD b = true
  clears : clear = true → dir = .up ∧
    ((∃ j h, s.holds b j = some h ∧ h.key = k.addr) ∨
      ∃ f ∈ s.filters, (f.unlatches k).getLsbD b = true)

theorem keyTurn_handleKey {km : XkbKeymap} (h : FiltersOk s) {kc : ℕ} (hk : keyOf km kc = some k)
    (dir : KeyDirection) :
    ∃ set clear, KeyTurn b k dir s (handleKey km ⟨s, none⟩ k dir).state set clear := by
  have hok : SlotsOk (⟨s, none⟩ : Frame).resetMasks := h
  have hsyn : k.addr ≠ .syntheticKey := by
    intro hsyn
    have hderef := (keyOf_spec hk).2.2
    rw [hsyn] at hderef
    exact absurd hderef (by simp [derefKey])
  have hturn : HoldTurn b k dir _ _ := holdTurn_xkbFilterApplyAll km hok (canHold_of_keyOf hk) hsyn
    BitVec.getLsbD_zero BitVec.getLsbD_zero
  rw [handleKey_eq]
  generalize xkbFilterApplyAll km (⟨s, none⟩ : Frame).resetMasks k dir = fr at hturn
  have hbit := modBit_updateBaseMods fr.state b
  have hbefore : fr.state.modBit b =
      ⟨s.modKeyCount b, s.components.baseMods.getLsbD b, fr.sets b, fr.clears b⟩ := by
    rw [XkbServerState.modBit, hturn.footprint.modKeyCount, hturn.footprint.baseMods]
    rfl
  rw [hbefore] at hbit
  refine ⟨fr.sets b, fr.clears b, ⟨?_, ?_, ?_, hturn.level, fun hc => ?_⟩⟩
  · have hholds : (fr.applyMasks km).state.holds b = fr.holds b := by
      funext i
      simp only [XkbServerState.holds, holds, slot, applyMasks,
        updateDerived, mapComponents, updateBaseMods_filters]
    rw [hholds]
    exact hturn.turn
  · exact congrArg ModBit.count hbit
  · exact congrArg ModBit.depressed hbit
  · obtain ⟨hdir, hcase⟩ := hturn.clears hc
    refine ⟨hdir, hcase.imp_right ?_⟩
    rintro ⟨j, f, hf, hb⟩
    exact ⟨f, Slots.mem_of_busyAt hf, hb⟩

end Xkbcommon
