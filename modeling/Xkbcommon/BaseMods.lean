import Xkbcommon.Lib.Runs
import Xkbcommon.Server

/-!
# The depressed modifiers, one at a time

The filters collect the modifiers to set and to clear in two masks, and two loops over
the bits apply the masks at the end of the event. The loops treat each modifier on its
own, so a modifier can be looked at alone: `Xkbcommon.ModBit` is what the state knows of
it, and `Xkbcommon.modBit_updateBaseMods` says that the loops raise its count and then
lower it, each at most once.
-/

namespace Xkbcommon

open Masks Counter XkbServerState

/-- One modifier of a server state: how many keys hold it, whether it is depressed, and
whether the event at hand sets or clears it. -/
@[ext] structure ModBit where
  count : ℤ
  depressed : Bool
  set : Bool
  clear : Bool
  deriving DecidableEq, Repr

/-- A modifier of a server state. -/
def XkbServerState.modBit (s : XkbServerState) (i : Fin 32) : ModBit :=
  ⟨s.modKeyCount i, s.components.baseMods.getLsbD i, s.setMods.getLsbD i, s.clearMods.getLsbD i⟩

/-- What the loop over `set_mods` does with one modifier. -/
def ModBit.applySet (b : ModBit) : ModBit :=
  if b.set then { b with count := raise b.count, depressed := true, set := false } else b

/-- What the loop over `clear_mods` does with one modifier. -/
def ModBit.applyClear (b : ModBit) : ModBit :=
  if b.clear then
    { b with
      count := lower b.count
      depressed := b.depressed && !decide (int16 (b.count - 1) ≤ 0)
      clear := false }
  else b

@[simp] theorem ModBit.applySet_clear (b : ModBit) : b.applySet.clear = b.clear := by
  unfold applySet
  split <;> rfl

variable (s : XkbServerState) (i : Fin 32) {j : Fin 32}

theorem modBit_setModsStep_self : (setModsStep s i).modBit i = (s.modBit i).applySet := by
  unfold setModsStep ModBit.applySet modBit
  dsimp only
  split
  · ext <;> simp [raise]
  · rfl

theorem modBit_setModsStep_ne (h : j ≠ i) : (setModsStep s i).modBit j = s.modBit j := by
  have hne : ¬(j : ℕ) = i := fun heq => h (Fin.ext heq)
  unfold setModsStep modBit
  split
  · ext <;> simp [Function.update_of_ne h, hne]
  · rfl

theorem modBit_clearModsStep_self : (clearModsStep s i).modBit i = (s.modBit i).applyClear := by
  unfold clearModsStep ModBit.applyClear modBit
  dsimp only
  split
  · ext
    · simp [lower]
    · dsimp only
      split <;> simp_all
    · rfl
    · simp
  · rfl

theorem modBit_clearModsStep_ne (h : j ≠ i) : (clearModsStep s i).modBit j = s.modBit j := by
  have hne : ¬(j : ℕ) = i := fun heq => h (Fin.ext heq)
  unfold clearModsStep modBit
  dsimp only
  split
  · ext
    · simp [Function.update_of_ne h]
    · dsimp only
      split <;> simp [hne]
    · rfl
    · simp [hne]
  · rfl

theorem modBit_updateBaseMods : (updateBaseMods s).modBit i = (s.modBit i).applySet.applyClear := by
  unfold updateBaseMods
  rw [Runs.foldl_pointwise modBit_clearModsStep_self modBit_clearModsStep_ne
      (List.nodup_finRange 32),
    Runs.foldl_pointwise modBit_setModsStep_self modBit_setModsStep_ne (List.nodup_finRange 32),
    if_pos (List.mem_finRange i), if_pos (List.mem_finRange i)]

/-! Everything else is kept. -/

theorem updateBaseMods_keeps {α : Type*} {v : XkbServerState → α}
    (hset : ∀ s i, v (setModsStep s i) = v s) (hclear : ∀ s i, v (clearModsStep s i) = v s)
    (s : XkbServerState) : v (updateBaseMods s) = v s := by
  unfold updateBaseMods
  rw [Runs.foldl_keeps hclear, Runs.foldl_keeps hset]

@[simp] theorem updateBaseMods_filters : (updateBaseMods s).filters = s.filters := by
  refine updateBaseMods_keeps (v := fun s => s.filters) (fun s i => ?_) (fun s i => ?_) s
  · simp only [setModsStep]
    split <;> rfl
  · simp only [clearModsStep]
    split <;> rfl

@[simp] theorem updateBaseMods_flags : (updateBaseMods s).flags = s.flags := by
  refine updateBaseMods_keeps (v := fun s => s.flags) (fun s i => ?_) (fun s i => ?_) s
  · simp only [setModsStep]
    split <;> rfl
  · simp only [clearModsStep]
    split <;> rfl

@[simp] theorem updateBaseMods_mode : (updateBaseMods s).mode = s.mode := by
  refine updateBaseMods_keeps (v := fun s => s.mode) (fun s i => ?_) (fun s i => ?_) s
  · simp only [setModsStep]
    split <;> rfl
  · simp only [clearModsStep]
    split <;> rfl

@[simp] theorem updateBaseMods_outOfRangeGroup :
    (updateBaseMods s).outOfRangeGroup = s.outOfRangeGroup := by
  refine updateBaseMods_keeps (v := fun s => s.outOfRangeGroup) (fun s i => ?_) (fun s i => ?_) s
  · simp only [setModsStep]
    split <;> rfl
  · simp only [clearModsStep]
    split <;> rfl

/-- Only the depressed modifiers are written. -/
theorem updateBaseMods_components :
    (updateBaseMods s).components =
      { s.components with baseMods := (updateBaseMods s).components.baseMods } := by
  have h : { (updateBaseMods s).components with baseMods := 0#32 } =
      { s.components with baseMods := 0#32 } := by
    refine updateBaseMods_keeps (v := fun s => { s.components with baseMods := 0#32 })
      (fun s i => ?_) (fun s i => ?_) s
    · simp only [setModsStep]
      split <;> rfl
    · simp only [clearModsStep]
      split <;> rfl
  exact congrArg (fun c : StateComponents =>
    { c with baseMods := (updateBaseMods s).components.baseMods }) h

/-! ### Counting who holds a modifier -/

namespace ModBit

variable {m m' : ModBit} {n n' : ℕ}

/-- **The modifier is not stuck**: its counter counts at most `n` holders, and it is only
depressed if there is one. -/
structure AtMost (m : ModBit) (n : ℕ) : Prop where
  count : Counter.AtMost m.count n
  depressed : m.depressed = true → 0 < n

theorem AtMost.congr (h : m.AtMost n) (hcount : m'.count = m.count)
    (hdepressed : m'.depressed = m.depressed) : m'.AtMost n :=
  ⟨hcount.symm ▸ h.count, fun hd => h.depressed (hdepressed.symm.trans hd)⟩

theorem AtMost.applySet (h : m.AtMost n) (hn : n + (if m.set then 1 else 0) ≤ n') :
    m.applySet.AtMost n' := by
  unfold ModBit.applySet
  split
  · rename_i hset
    rw [if_pos hset] at hn
    exact ⟨h.count.raise hn, fun _ => by omega⟩
  · rename_i hset
    rw [if_neg hset] at hn
    exact ⟨h.count.mono (by omega), fun hd => by have := h.depressed hd; omega⟩

theorem AtMost.applyClear (h : m.AtMost n) (hn : n ≤ n' + if m.clear then 1 else 0) :
    m.applyClear.AtMost n' := by
  unfold ModBit.applyClear
  split
  · rename_i hclear
    rw [if_pos hclear] at hn
    refine ⟨h.count.lower hn, fun hd => ?_⟩
    by_contra hzero
    have hreset := h.count.lower_of_le_one (by omega)
    simp [hreset] at hd
  · rename_i hclear
    rw [if_neg hclear] at hn
    exact ⟨h.count.mono (by omega), fun hd => by have := h.depressed hd; omega⟩

/-- **The modifier stays depressed**: its counter counts at least `n` holders, and it is
depressed if there is one. -/
structure AtLeast (m : ModBit) (n : ℕ) : Prop where
  count : Counter.AtLeast m.count n
  depressed : 0 < n → m.depressed = true

theorem AtLeast.congr (h : m.AtLeast n) (hcount : m'.count = m.count)
    (hdepressed : m'.depressed = m.depressed) : m'.AtLeast n :=
  ⟨hcount.symm ▸ h.count, fun hpos => hdepressed.trans (h.depressed hpos)⟩

theorem AtLeast.applySet (h : m.AtLeast n) (hmax : m.set = true → m.count < 0x7fff)
    (hn : n' ≤ n + if m.set then 1 else 0) : m.applySet.AtLeast n' := by
  unfold ModBit.applySet
  split
  · rename_i hset
    rw [if_pos hset] at hn
    exact ⟨h.count.raise (hmax hset) hn, fun _ => rfl⟩
  · rename_i hset
    rw [if_neg hset] at hn
    exact ⟨h.count.mono (by omega), fun hpos => h.depressed (by omega)⟩

theorem AtLeast.applyClear (h : m.AtLeast n)
    (hclear : m.clear = true → n' + 1 ≤ n ∨ n' = 0) (hkeep : m.clear = false → n' ≤ n) :
    m.applyClear.AtLeast n' := by
  unfold ModBit.applyClear
  split
  · rename_i hc
    refine ⟨h.count.lower (hclear hc), fun hpos => ?_⟩
    have hn : n' + 1 ≤ n := (hclear hc).resolve_right (by omega)
    have hkept := h.count.lower_of_two_le (by omega)
    simp [h.depressed (by omega), hkept]
  · rename_i hc
    have hn := hkeep (by simpa using hc)
    exact ⟨h.count.mono hn, fun hpos => h.depressed (by omega)⟩

end ModBit

end Xkbcommon
