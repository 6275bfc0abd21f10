import Mathlib.Data.List.Sort
import Xkbcommon.Derived

/-!
# Remapping modifiers

A machine may be told to take some modifiers for others, for keys whose type does not use them. Of
several mappings that fit, those with more modifiers come first: they are sorted when the machine
is made (`machine_set_mods`) and tried in turn for each key (`do_remap_modifiers`).

The comparison of `cmp_mod_masks` asks for inclusion first and for the number of modifiers then.
The first question is part of the second, so it is the order of `Xkbcommon.cmpModMasks_iff`, and a
total one. What is tried first is then never included in what comes later, and the greedy choice
is the documented one (`Xkbcommon.remap_by_priority`).
-/

namespace Xkbcommon

open Masks List

variable {km : XkbKeymap} {mods typeMask affect m1 m2 : BitVec 32} {l : List MachineModsMapping}

/-! ### The order of the masks -/

theorem popcount32_eq (m : BitVec 32) :
    popcount32 m = ((range 32).filter m.getLsbD).length := by
  rw [popcount32, ← countP_eq_length_filter]
  rfl

/-- A mask that is included in another one has fewer modifiers. -/
theorem popcount32_lt (h : Sub m1 m2) (hne : m1 ≠ m2) : popcount32 m1 < popcount32 m2 := by
  have hsub := monotone_filter_right (range 32) h
  rw [popcount32_eq, popcount32_eq]
  refine lt_of_le_of_ne hsub.length_le fun heq => hne ?_
  have hfilter := hsub.eq_of_length heq
  refine BitVec.eq_of_getLsbD_eq fun i hi => ?_
  rw [Bool.eq_iff_iff]
  refine ⟨h i, fun hm => ?_⟩
  have hmem := mem_filter.mpr ⟨mem_range.mpr hi, hm⟩
  rw [← hfilter] at hmem
  exact (mem_filter.mp hmem).2

/-- **The order of `cmp_mod_masks`**: more modifiers first, then the smaller mask. -/
theorem cmpModMasks_iff (m1 m2 : BitVec 32) :
    cmpModMasks m1 m2 = true ↔
      popcount32 m2 < popcount32 m1 ∨ popcount32 m1 = popcount32 m2 ∧ m1.toNat ≤ m2.toNat := by
  have hsub : ∀ m k : BitVec 32, m ≠ k → m &&& k = m → popcount32 m < popcount32 k :=
    fun m k hne h => popcount32_lt ((sub_iff_and_eq m k).mpr h) hne
  unfold cmpModMasks
  by_cases heq : m1 = m2
  · simp [heq]
  have htoNat : m1.toNat ≠ m2.toNat := fun h => heq (BitVec.eq_of_toNat_eq h)
  rw [if_neg heq]
  by_cases hz1 : m1 = 0#32
  · have := hsub m1 m2 heq (by rw [hz1, BitVec.zero_and])
    simp only [hz1, if_true] at this ⊢
    simp
    omega
  by_cases hz2 : m2 = 0#32
  · have := hsub m2 m1 (Ne.symm heq) (by rw [hz2, BitVec.zero_and])
    simp only [hz1, hz2, if_true, if_false] at this ⊢
    simp
    omega
  rw [if_neg hz1, if_neg hz2]
  by_cases h1 : m1 &&& m2 = m1
  · have := hsub m1 m2 heq h1
    rw [if_pos h1]
    simp
    omega
  by_cases h2 : m1 &&& m2 = m2
  · have := hsub m2 m1 (Ne.symm heq) (by rwa [BitVec.and_comm])
    rw [if_neg h1, if_pos h2]
    simp
    omega
  rw [if_neg h1, if_neg h2]
  split
  · simp
    omega
  split
  · simp
    omega
  · simp
    omega

/-- The sources of the mappings, in the order in which they are tried. -/
theorem pairwise_mappings (km : XkbKeymap) (raw : List MachineModsMapping) :
    (machineSetMods km raw).mappings.Pairwise fun a b =>
      cmpModMasks a.source b.source = true := by
  have htotal : Std.Total fun a b : MachineModsMapping => cmpModMasks a.source b.source = true :=
    ⟨fun a b => by simp only [cmpModMasks_iff]; omega⟩
  have htrans : IsTrans MachineModsMapping fun a b => cmpModMasks a.source b.source = true :=
    ⟨fun a b c => by simp only [cmpModMasks_iff]; omega⟩
  exact pairwise_insertionSort _ _

/-! ### The greedy choice -/

/-- The mapping may apply: its modifiers are active and the key does not use them. -/
def Eligible (mods typeMask : BitVec 32) (m : MachineModsMapping) : Prop :=
  Sub m.source mods ∧ m.source &&& typeMask = 0#32

instance (mods typeMask : BitVec 32) (m : MachineModsMapping) :
    Decidable (Eligible mods typeMask m) :=
  decidable_of_iff (m.source &&& mods = m.source ∧ m.source &&& typeMask = 0#32) (by
    rw [Eligible, sub_iff_and_eq])

/-- The mappings that the loop of `do_remap_modifiers` applies, some modifiers being taken. -/
def appliedMappings (mods typeMask : BitVec 32) :
    BitVec 32 → List MachineModsMapping → List MachineModsMapping
  | _, [] => []
  | affect, m :: l =>
    if Eligible mods typeMask m ∧ m.source &&& affect = 0#32 then
      m :: appliedMappings mods typeMask (affect ||| m.source) l
    else appliedMappings mods typeMask affect l

/-- The modifiers of several mappings. -/
def unionOf (field : MachineModsMapping → BitVec 32) (l : List MachineModsMapping) : BitVec 32 :=
  l.foldr (fun m mask => field m ||| mask) 0#32

theorem matchMappings_eq (mods typeMask : BitVec 32) (l : List MachineModsMapping) :
    matchMappings mods typeMask l =
      (unionOf MachineModsMapping.source (appliedMappings mods typeMask 0#32 l),
        unionOf MachineModsMapping.target (appliedMappings mods typeMask 0#32 l)) := by
  have hfold : ∀ acc : BitVec 32 × BitVec 32, l.foldl (fun acc mapping =>
      if mapping.source &&& mods = mapping.source ∧ mapping.source &&& acc.1 = 0#32 ∧
          mapping.source &&& typeMask = 0#32 then
        (acc.1 ||| mapping.source, acc.2 ||| mapping.target)
      else acc) acc =
      (acc.1 ||| unionOf MachineModsMapping.source (appliedMappings mods typeMask acc.1 l),
        acc.2 ||| unionOf MachineModsMapping.target (appliedMappings mods typeMask acc.1 l)) := by
    induction l with
    | nil => simp [appliedMappings, unionOf]
    | cons m l ih =>
      intro acc
      rw [foldl_cons, ih, appliedMappings]
      by_cases h : Eligible mods typeMask m ∧ m.source &&& acc.1 = 0#32
      · rw [if_pos ⟨(sub_iff_and_eq _ _).mp h.1.1, h.2, h.1.2⟩, if_pos h]
        simp only [unionOf, foldr_cons, BitVec.or_assoc]
      · rw [if_neg fun h' => h ⟨⟨(sub_iff_and_eq _ _).mpr h'.1, h'.2.2⟩, h'.2.1⟩, if_neg h]
  rw [matchMappings, hfold]
  simp

/-- **The choice among the mappings**: no two of those that apply share a modifier, and one that
does not apply, although it may, gives way to one with as many modifiers, which is not included in
it. -/
structure Selects (mods typeMask : BitVec 32) (l applied : List MachineModsMapping) : Prop where
  mem : ∀ m ∈ applied, m ∈ l ∧ Eligible mods typeMask m
  disjoint : applied.Pairwise fun a b => a.source &&& b.source = 0#32
  priority : ∀ m ∈ l, Eligible mods typeMask m → m ∉ applied →
    ∃ a ∈ applied, anyBit a.source m.source = true ∧ popcount32 m.source ≤ popcount32 a.source ∧
      ¬(Sub a.source m.source ∧ a.source ≠ m.source)

theorem appliedMappings_mem {m : MachineModsMapping}
    (h : m ∈ appliedMappings mods typeMask affect l) :
    m ∈ l ∧ Eligible mods typeMask m ∧ m.source &&& affect = 0#32 := by
  induction l generalizing affect with
  | nil => exact absurd h (by simp [appliedMappings])
  | cons m' l ih =>
    rw [appliedMappings] at h
    split at h
    · rename_i hm'
      rcases mem_cons.mp h with rfl | h
      · exact ⟨mem_cons_self, hm'⟩
      · obtain ⟨hl, helig, haffect⟩ := ih h
        rw [BitVec.and_or_distrib_left, BitVec.or_eq_zero_iff] at haffect
        exact ⟨mem_cons_of_mem _ hl, helig, haffect.1⟩
    · obtain ⟨hl, h⟩ := ih h
      exact ⟨mem_cons_of_mem _ hl, h⟩

theorem appliedMappings_disjoint :
    (appliedMappings mods typeMask affect l).Pairwise fun a b => a.source &&& b.source = 0#32 := by
  induction l generalizing affect with
  | nil => exact .nil
  | cons m l ih =>
    rw [appliedMappings]
    split
    · refine pairwise_cons.mpr ⟨fun b hb => ?_, ih⟩
      have hb' := (appliedMappings_mem hb).2.2
      rw [BitVec.and_or_distrib_left, BitVec.or_eq_zero_iff] at hb'
      rw [BitVec.and_comm]
      exact hb'.2
    · exact ih

/-- A mapping that is passed over shares a modifier with one that was taken before it. -/
theorem appliedMappings_priority {m : MachineModsMapping}
    (hsorted : l.Pairwise fun a b => cmpModMasks a.source b.source = true) (hm : m ∈ l)
    (helig : Eligible mods typeMask m) (hnot : m ∉ appliedMappings mods typeMask affect l) :
    m.source &&& affect ≠ 0#32 ∨ ∃ a ∈ appliedMappings mods typeMask affect l,
      a.source &&& m.source ≠ 0#32 ∧ cmpModMasks a.source m.source = true := by
  induction l generalizing affect with
  | nil => exact absurd hm not_mem_nil
  | cons m' l ih =>
    obtain ⟨hfirst, hsorted⟩ := pairwise_cons.mp hsorted
    rw [appliedMappings] at hnot ⊢
    split at hnot
    · rename_i hm'
      rw [if_pos hm']
      obtain ⟨hne, hnot⟩ := not_or.mp (mt mem_cons.mpr hnot)
      have hm := (mem_cons.mp hm).resolve_left hne
      by_cases hoverlap : m'.source &&& m.source = 0#32
      · rcases ih hsorted hm hnot with h | ⟨a, ha, h⟩
        · rw [BitVec.and_or_distrib_left, BitVec.and_comm m.source m'.source, hoverlap,
            BitVec.or_zero] at h
          exact Or.inl h
        · exact Or.inr ⟨a, mem_cons_of_mem _ ha, h⟩
      · exact Or.inr ⟨m', mem_cons_self, hoverlap, hfirst m hm⟩
    · rename_i hm'
      rw [if_neg hm']
      rcases mem_cons.mp hm with rfl | hm
      · exact Or.inl fun h => hm' ⟨helig, h⟩
      · exact ih hsorted hm hnot

theorem selects_appliedMappings (mods typeMask : BitVec 32)
    (hsorted : l.Pairwise fun a b => cmpModMasks a.source b.source = true) :
    Selects mods typeMask l (appliedMappings mods typeMask 0#32 l) := by
  refine ⟨fun m hm => ?_, appliedMappings_disjoint, fun m hm helig hnot => ?_⟩
  · obtain ⟨hl, helig, -⟩ := appliedMappings_mem hm
    exact ⟨hl, helig⟩
  · obtain ⟨a, ha, hoverlap, hcmp⟩ := (appliedMappings_priority hsorted hm helig hnot).resolve_left
      (by simp)
    have hcount := (cmpModMasks_iff _ _).mp hcmp
    refine ⟨a, ha, bne_iff_ne.mpr hoverlap, by omega, fun ⟨hsub, hne⟩ => ?_⟩
    have := popcount32_lt hsub hne
    omega

/-! ### The modifiers of the state -/

/-- The modifiers that the type of a key uses, if the key has a group. -/
def keyTypeMask (state : XkbState) (key : XkbKey) : Option (BitVec 32) := do
  let layout ← stateKeyGetLayout state key
  let group ← key.groups[layout]?
  some group.type.mods.mask

/-- A mapping of a machine has modifiers, and its mask has them all. -/
theorem mem_mappings {m : MachineModsMapping} {raw : List MachineModsMapping}
    (h : m ∈ (machineSetMods km raw).mappings) :
    m.source ≠ 0#32 ∧ Sub m.source (machineSetMods km raw).mask := by
  rw [machineSetMods, mem_insertionSort] at h
  refine ⟨?_, ?_⟩
  · simp only [mem_filter, Bool.and_eq_true, bne_iff_ne] at h
    exact h.2.1.1.1
  · rw [machineSetMods]
    generalize raw.filter _ = mappings at h
    obtain ⟨pre, post, rfl⟩ := List.append_of_mem h
    have hgrow : ∀ mask : BitVec 32, Sub mask (post.foldl (fun mask m => mask ||| m.source) mask) :=
      fun mask => foldlRecOn post _ (.refl mask) fun mask' hmask' _ _ =>
        hmask'.trans (sub_or_left _ _)
    rw [foldl_append, foldl_cons]
    exact (sub_or_right _ _).trans (hgrow _)

/-- Mappings without modifiers are no mappings of a machine. -/
theorem applied_eq_nil {raw : List MachineModsMapping}
    (h : unionOf MachineModsMapping.source
      (appliedMappings mods typeMask 0#32 (machineSetMods km raw).mappings) = 0#32) :
    appliedMappings mods typeMask 0#32 (machineSetMods km raw).mappings = [] := by
  cases happ : appliedMappings mods typeMask 0#32 (machineSetMods km raw).mappings with
  | nil => rfl
  | cons m applied =>
    rw [happ, unionOf, foldr_cons, BitVec.or_eq_zero_iff] at h
    have hm : m ∈ appliedMappings mods typeMask 0#32 (machineSetMods km raw).mappings := by
      simp [happ]
    exact absurd h.1 (mem_mappings (appliedMappings_mem hm).1).1

/-- Without a common modifier, no mapping applies. -/
theorem applied_of_mask {raw : List MachineModsMapping}
    (h : anyBit (machineSetMods km raw).mask mods = false) :
    appliedMappings mods typeMask 0#32 (machineSetMods km raw).mappings = [] := by
  refine eq_nil_iff_forall_not_mem.mpr fun m hm => ?_
  obtain ⟨hl, ⟨hsub, -⟩, -⟩ := appliedMappings_mem hm
  obtain ⟨hne, hmask⟩ := mem_mappings hl
  obtain ⟨i, hi, -⟩ := (anyBit_iff _ _).mp ((anyBit_self_iff m.source).mpr hne)
  exact absurd ((anyBit_iff _ _).mpr ⟨i, hmask i hi, hsub i hi⟩) (by simp [h])

theorem remappedModifiers_eq (km : XkbKeymap) (raw : List MachineModsMapping) (state : XkbState)
    (key : XkbKey) :
    remappedModifiers (machineSetMods km raw) state key =
      (keyTypeMask state key).bind fun typeMask =>
        let applied := appliedMappings state.components.mods typeMask 0#32
          (machineSetMods km raw).mappings
        if applied = [] then none
        else some (unionOf MachineModsMapping.source applied,
          unionOf MachineModsMapping.target applied) := by
  unfold remappedModifiers keyTypeMask
  split
  · rename_i hmask
    cases stateKeyGetLayout state key with
    | none => rfl
    | some layout =>
      cases hg : key.groups[layout]? with
      | none => simp [hg]
      | some group => simp [hg, applied_of_mask hmask]
  · cases stateKeyGetLayout state key with
    | none => rfl
    | some layout =>
      cases hg : key.groups[layout]? with
      | none => simp [hg]
      | some group =>
        simp only [Option.bind_eq_bind, Option.bind_some, hg, matchMappings_eq]
        refine if_congr ⟨applied_eq_nil, fun h => ?_⟩ rfl rfl
        rw [h]
        rfl

/-- The modifiers that are announced. -/
theorem remapComponents_mods {state : XkbState} (hs : IsDerived km state)
    (affect target : BitVec 32) :
    (remapComponents km state affect target).mods =
      (state.components.mods &&& ~~~affect) ||| target := by
  obtain ⟨c, hc⟩ := hs
  have hmods : state.components.mods = state.components.baseMods |||
      state.components.latchedMods ||| state.components.lockedMods := by rw [hc]; simp
  rw [remapComponents, deriveComponents_mods, hmods]
  refine BitVec.eq_of_getLsbD_eq fun i hi => ?_
  simp only [BitVec.getLsbD_or, BitVec.getLsbD_and]
  grind

/-- **Mappings are chosen by priority**, and the modifiers of those that apply are replaced, in
the state and in what is announced of it: for every configuration, derived state and key. A key
without a group is left alone. -/
theorem remap_by_priority (km : XkbKeymap) (raw : List MachineModsMapping) {state : XkbState}
    (hs : IsDerived km state) (queue : List XkbEvent) (key : XkbKey) :
    match keyTypeMask state key with
    | none => doRemapModifiers km (machineSetMods km raw) state queue key = ⟨state, queue, none⟩
    | some typeMask => ∃ applied mods,
        applied = appliedMappings state.components.mods typeMask 0#32
          (machineSetMods km raw).mappings ∧
        Selects state.components.mods typeMask (machineSetMods km raw).mappings applied ∧
        mods = (state.components.mods &&& ~~~unionOf MachineModsMapping.source applied) |||
          unionOf MachineModsMapping.target applied ∧
        (doRemapModifiers km (machineSetMods km raw) state queue key).state.components.mods =
          mods ∧
        ∀ e ∈ (doRemapModifiers km (machineSetMods km raw) state queue key).queue.drop queue.length,
          ∃ c changed, e = .componentsChange c changed ∧ c.mods = mods := by
  have hremap := remappedModifiers_eq km raw state key
  cases hmask : keyTypeMask state key with
  | none =>
    rw [hmask, Option.bind_none] at hremap
    simp only [doRemapModifiers, hremap]
  | some typeMask =>
    rw [hmask, Option.bind_some] at hremap
    refine ⟨_, _, rfl, selects_appliedMappings _ _ (pairwise_mappings km raw), rfl, ?_⟩
    dsimp only at hremap ⊢
    generalize appliedMappings state.components.mods typeMask 0#32
      (machineSetMods km raw).mappings = applied at hremap ⊢
    by_cases hnil : applied = []
    · rw [if_pos hnil] at hremap
      have hmods : (state.components.mods &&& ~~~unionOf MachineModsMapping.source applied) |||
          unionOf MachineModsMapping.target applied = state.components.mods := by
        rw [hnil, unionOf, unionOf, foldr_nil, foldr_nil, BitVec.not_zero,
          BitVec.and_allOnes, BitVec.or_zero]
      rw [hmods]
      simp [doRemapModifiers, hremap]
    · rw [if_neg hnil] at hremap
      have hmods := remapComponents_mods hs (unionOf MachineModsMapping.source applied)
        (unionOf MachineModsMapping.target applied)
      simp only [doRemapModifiers, hremap]
      split
      · exact ⟨hmods, by simp⟩
      · refine ⟨hmods, fun e he => ?_⟩
        rw [drop_left, mem_singleton] at he
        exact ⟨_, _, he, hmods⟩

/-- Two modifiers are held. -/
def twoModsState (km : XkbKeymap) : XkbState :=
  xkbStateUpdateDerived km { components := { baseMods := 3#32 } }

/-- The mapping of both modifiers goes before the mapping of one of them. -/
theorem remap_by_priority_two :
    (doRemapModifiers {} (machineSetMods {} [⟨1#32, 16#32⟩, ⟨3#32, 8#32⟩]) (twoModsState {}) []
      (oneLevelKey 0 [])).state.components.mods = 8#32 := by
  have hmask : keyTypeMask (twoModsState {}) (oneLevelKey 0 []) = some 0#32 := by decide +kernel
  have h := remap_by_priority {} [⟨1#32, 16#32⟩, ⟨3#32, 8#32⟩]
    (show IsDerived {} (twoModsState {}) from isDerived_xkbStateUpdateDerived) [] (oneLevelKey 0 [])
  rw [hmask] at h
  obtain ⟨applied, mods, happlied, -, hmods, hstate, -⟩ := h
  rw [hstate, hmods, happlied]
  decide +kernel

end Xkbcommon
