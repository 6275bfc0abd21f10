import Mathlib.Data.PEquiv
import Mathlib.Order.Bounds.Basic
import Xkbcommon.Xkbcomp.KeycodeStore

/-!
# The invariant of the store of keycodes

The three tables of `Xkbcommon.Xkbcomp.KeycodeStore` describe one partial bijection between keycodes
and names. `Xkbcommon.Xkbcomp.KeycodeStore.Valid` says this of the tables, together with their
shape: the high table is sorted and above the low range, the low table ends with a key, and the
minimum is that of the keycodes.

A definition is made of few changes: a key is removed, a key is inserted and the name of a keycode
is replaced. Each of them keeps the invariant, under the condition that the definition has checked
before it makes the change.
-/

namespace Xkbcommon.Xkbcomp

open List Function Sparse BinarySearch KeycodeMatch

variable {kc index : ℕ} {name : AtomId} {slot : KeySlot} {store : KeycodeStore}

namespace KeycodeStore

variable {names : List KeycodeMatch} {entry : HighKeycodeEntry} {old : AtomId}

/-! ### The invariant -/

/-- The keycodes that have a name. -/
def keycodes (store : KeycodeStore) : Set ℕ :=
  {kc | store.low.getD kc xkbAtomNone ≠ xkbAtomNone ∨ ∃ entry ∈ store.high, entry.keycode = kc}

/-- The slot of a name. -/
def slotOf (store : KeycodeStore) (name : AtomId) : Option KeySlot := (store.lookupName name).slot?

/-- The shape of the two tables with keycodes. -/
structure Shape (store : KeycodeStore) : Prop where
  low_le : store.low.length ≤ xkbKeycodeMaxContiguous + 1
  /-- The last low slot is defined. -/
  low_last : ∀ index, store.low.length = index + 1 →
    store.low.getD index xkbAtomNone ≠ xkbAtomNone
  /-- The high table is strictly increasing. -/
  high_lt : store.high.Pairwise fun entry later => entry.keycode < later.keycode
  /-- The high table is above the low range. -/
  high_gt : ∀ entry ∈ store.high, xkbKeycodeMaxContiguous < entry.keycode
  high_le : ∀ entry ∈ store.high, entry.keycode ≤ xkbKeycodeMax
  high_named : ∀ entry ∈ store.high, entry.name ≠ xkbAtomNone

/-- The minimum is the least keycode, or invalid if there is none. -/
def IsMin (store : KeycodeStore) : Prop :=
  IsLeast store.keycodes store.min ∨ store.keycodes = ∅ ∧ store.min = xkbKeycodeInvalid

/-- **The invariant of a store.** A name's entry is that of a slot exactly if the slot holds the
name. -/
structure Valid (store : KeycodeStore) : Prop extends Shape store where
  linked : Index.Matches xkbAtomNone store.nameAt store.slotOf
  isMin : store.IsMin

theorem Shape.of_tables {store' : KeycodeStore} (h : store.Shape) (hlow : store'.low = store.low)
    (hhigh : store'.high = store.high) : store'.Shape := by
  constructor
  · exact hlow ▸ h.low_le
  · exact hlow ▸ h.low_last
  · exact hhigh ▸ h.high_lt
  · exact hhigh ▸ h.high_gt
  · exact hhigh ▸ h.high_le
  · exact hhigh ▸ h.high_named

/-- The names of the keys may get other entries, those of keys apart. -/
theorem Valid.of_slotOf (h : store.Valid)
    (hslot : ∀ n, (names.getD n .absent).slot? = store.slotOf n) : Valid { store with names } := by
  refine ⟨h.toShape.of_tables rfl rfl, ?_, h.isMin⟩
  have hslots : ({ store with names } : KeycodeStore).slotOf = store.slotOf := funext hslot
  rw [hslots]
  exact h.linked

/-! ### What the searches find -/

theorem mem_high_of_getElem? (h : store.high[index]? = some entry) :
    store.nameAt (.high index) = entry.name ∧ store.keycodeAt (.high index) = entry.keycode := by
  simp [nameAt, keycodeAt, h]

theorem lt_length_of_nameAt_high (h : store.nameAt (.high index) ≠ xkbAtomNone) :
    index < store.high.length := by
  by_contra hge
  rw [nameAt, getElem?_eq_none (Nat.le_of_not_lt hge)] at h
  exact h rfl

theorem lt_length_of_nameAt_low (h : store.nameAt (.low index) ≠ xkbAtomNone) :
    index < store.low.length := lt_length_of_getD_ne h

/-- The entry of a high slot that is in use. -/
theorem exists_entry_of_nameAt (h : store.nameAt (.high index) ≠ xkbAtomNone) :
    ∃ entry, store.high[index]? = some entry ∧ entry.name = store.nameAt (.high index) ∧
      entry.keycode = store.keycodeAt (.high index) := by
  have hentry := getElem?_eq_getElem (lt_length_of_nameAt_high h)
  obtain ⟨hname, hkeycode⟩ := mem_high_of_getElem? hentry
  exact ⟨_, hentry, hname.symm, hkeycode.symm⟩

/-- The high table is what a binary search needs. -/
theorem Shape.increasing (h : store.Shape) :
    BinarySearch.Increasing store.highKeycode 0 store.high.length := by
  constructor
  · intro i _ hi
    exact ⟨_, by rw [highKeycode, getElem?_eq_getElem hi]; rfl⟩
  · intro i j y z _ hij hj hy hz
    rw [highKeycode, getElem?_eq_getElem (hij.trans hj)] at hy
    rw [highKeycode, getElem?_eq_getElem hj] at hz
    rw [← Option.some.inj hy, ← Option.some.inj hz]
    exact pairwise_iff_getElem.mp h.high_lt i j _ hj hij

/-- A keycode of a slot in use. -/
theorem mem_keycodes (hname : store.nameAt slot ≠ xkbAtomNone) :
    store.keycodeAt slot ∈ store.keycodes := by
  rcases slot with kc | index
  · exact .inl hname
  · obtain ⟨entry, hentry, -, hkeycode⟩ := exists_entry_of_nameAt hname
    exact .inr ⟨entry, mem_of_getElem? hentry, hkeycode⟩

theorem Shape.keycodes_le (h : store.Shape) (hkc : kc ∈ store.keycodes) : kc ≤ xkbKeycodeMax := by
  rcases hkc with hlow | ⟨entry, hentry, rfl⟩
  · have hlt := lt_length_of_getD_ne hlow
    have hle := h.low_le
    rw [xkbKeycodeMaxContiguous] at hle
    rw [xkbKeycodeMax]
    omega
  · exact h.high_le entry hentry

/-- **A keycode with a name is found**, at its slot. -/
theorem Shape.lookupKeycode_keycodeAt (h : store.Shape) (hname : store.nameAt slot ≠ xkbAtomNone) :
    store.lookupKeycode (store.keycodeAt slot) = .key slot := by
  rcases slot with kc | index
  · exact if_pos (lt_length_of_nameAt_low hname)
  · obtain ⟨entry, hentry, -, hkeycode⟩ := exists_entry_of_nameAt hname
    have hgt := h.high_gt entry (mem_of_getElem? hentry)
    have hlow := h.low_le
    rw [← hkeycode, lookupKeycode, if_neg (by omega), if_neg (by omega),
      search_of_read h.increasing (by omega) (Nat.zero_le index)
        (lt_length_of_nameAt_high hname) (by rw [highKeycode, hentry]; rfl)]

/-- A keycode without a name: it is not found, or at a low slot without a name. -/
theorem Shape.not_mem_keycodes (h : store.Shape)
    (hname : store.getKeyName (store.lookupKeycode kc) = xkbAtomNone) : kc ∉ store.keycodes := by
  intro hkc
  obtain ⟨slot, hslot, rfl⟩ : ∃ slot, store.nameAt slot ≠ xkbAtomNone ∧
      store.keycodeAt slot = kc := by
    rcases hkc with hlow | ⟨entry, hentry, rfl⟩
    · exact ⟨.low kc, hlow, rfl⟩
    · obtain ⟨index, hindex⟩ := getElem?_of_mem hentry
      obtain ⟨hname', hkeycode⟩ := mem_high_of_getElem? hindex
      exact ⟨.high index, hname' ▸ h.high_named entry hentry, hkeycode⟩
  rw [h.lookupKeycode_keycodeAt hslot] at hname
  exact hslot hname

/-- A keycode that is found with a name is that of the slot. -/
theorem Shape.lookupKeycode_of_getKeyName (h : store.Shape)
    (hname : store.getKeyName (store.lookupKeycode kc) ≠ xkbAtomNone) :
    ∃ slot, store.lookupKeycode kc = .key slot ∧ store.keycodeAt slot = kc := by
  rw [lookupKeycode] at hname ⊢
  split_ifs at hname ⊢ with hlow hle
  · exact ⟨.low kc, rfl, rfl⟩
  · exact absurd rfl hname
  · rcases search_spec (x := kc) h.increasing (Nat.zero_le _) le_rfl with
      ⟨i, hfound, -, hi, hread⟩ | ⟨i, hmissing, -⟩
    · rw [Nat.sub_zero] at hfound
      rw [hfound]
      refine ⟨.high i, rfl, ?_⟩
      rw [keycodeAt]
      exact congrArg (Option.getD · xkbKeycodeInvalid) hread
    · rw [Nat.sub_zero] at hmissing
      rw [hmissing] at hname
      exact absurd rfl hname

/-! ### The minimum -/

theorem IsMin.insert {keycodes : Set ℕ} {min : ℕ}
    (h : IsLeast keycodes min ∨ keycodes = ∅ ∧ min = xkbKeycodeInvalid) (hkc : kc ≤ xkbKeycodeMax) :
    IsLeast (insert kc keycodes) (if kc < min then kc else min) := by
  rcases h with h | ⟨rfl, rfl⟩
  · rw [← min_def_lt]
    exact h.insert kc
  · rw [if_pos (by rw [xkbKeycodeMax] at hkc; rw [xkbKeycodeInvalid]; omega), insert_empty_eq]
    exact isLeast_singleton

/-- The first of the high keycodes is the least one. -/
theorem Shape.head_le (h : store.Shape) (hhead : store.high.head? = some entry)
    {entry' : HighKeycodeEntry} (hmem : entry' ∈ store.high) : entry.keycode ≤ entry'.keycode := by
  obtain ⟨rest, hrest⟩ := head?_eq_some_iff.mp hhead
  have hlt := h.high_lt
  rw [hrest] at hlt hmem
  rcases mem_cons.mp hmem with rfl | hmem
  · exact le_refl _
  · exact ((pairwise_cons.mp hlt).1 entry' hmem).le

/-- The last of the high keycodes is the largest one. -/
theorem Shape.le_last (h : store.Shape) {last : HighKeycodeEntry}
    (hlast : store.high.getLast? = some last) (hentry : entry ∈ store.high) :
    entry.keycode ≤ last.keycode := by
  obtain ⟨init, hinit⟩ := getLast?_eq_some_iff.mp hlast
  have hpairwise := h.high_lt
  rw [hinit] at hpairwise hentry
  rcases mem_append.mp hentry with hentry | hentry
  · exact ((pairwise_append.mp hpairwise).2.2 entry hentry last (mem_singleton_self last)).le
  · rw [mem_singleton.mp hentry]

/-- Without low keycodes the minimum is that of the high ones. -/
theorem Shape.isMin_head (h : store.Shape) (hlow : store.low = [])
    (hmin : store.min = ((store.high.head?).map (·.keycode)).getD xkbKeycodeInvalid) :
    store.IsMin := by
  have hnoLow : ∀ kc, ¬store.low.getD kc xkbAtomNone ≠ xkbAtomNone := by
    intro kc
    rw [hlow]
    exact fun hne => hne rfl
  rcases hhead : store.high.head? with - | entry
  · rw [hhead] at hmin
    refine .inr ⟨Set.eq_empty_iff_forall_notMem.mpr ?_, hmin⟩
    rintro kc (hkc | ⟨entry, hentry, -⟩)
    · exact hnoLow kc hkc
    · rw [head?_eq_none_iff.mp hhead] at hentry
      exact absurd hentry not_mem_nil
  · rw [hhead] at hmin
    rw [IsMin, hmin]
    refine .inl ⟨.inr ⟨entry, mem_of_head? hhead, rfl⟩, ?_⟩
    rintro kc (hkc | ⟨entry', hentry', rfl⟩)
    · exact absurd hkc (hnoLow kc)
    · exact h.head_le hhead hentry'

/-- **The minimum is recomputed**, if the old one is still a lower bound. -/
theorem Shape.isMin_updateBounds (h : store.Shape) (hle : ∀ kc ∈ store.keycodes, store.min ≤ kc) :
    store.updateBounds.IsMin := by
  rw [updateBounds]
  split_ifs with hempty
  · have hshape : Shape { store with
        min := ((store.high.head?).map (·.keycode)).getD xkbKeycodeInvalid } := h.of_tables rfl rfl
    exact hshape.isMin_head (List.isEmpty_iff.mp hempty) rfl
  · -- the last low slot bounds the search
    obtain ⟨index, hindex⟩ : ∃ index, store.low.length = index + 1 :=
      Nat.exists_eq_succ_of_ne_zero fun hzero => hempty (List.isEmpty_iff.mpr
        (eq_nil_of_length_eq_zero hzero))
    have hlast := h.low_last index hindex
    obtain ⟨first, hfirst⟩ := firstDefined_isSome (hle index (.inl hlast)) hlast
    obtain ⟨-, hdefined, hbefore⟩ := firstDefined_eq_some hfirst
    rw [hfirst]
    refine .inl ⟨.inl hdefined, ?_⟩
    rintro kc (hkc | ⟨entry, hentry, rfl⟩)
    · exact Nat.le_of_not_lt fun hlt => hkc (hbefore kc (hle kc (.inl hkc)) hlt)
    · have hgt := h.high_gt entry hentry
      have hlt := lt_length_of_getD_ne hdefined
      have hlow := h.low_le
      show first ≤ entry.keycode
      omega

/-- The minimum is a lower bound. -/
theorem IsMin.le (h : store.IsMin) (hkc : kc ∈ store.keycodes) : store.min ≤ kc := by
  rcases h with ⟨-, hle⟩ | ⟨hempty, -⟩
  · exact hle hkc
  · exact absurd (hempty ▸ hkc) (Set.notMem_empty kc)

/-! ### Entries of names -/

/-- The slots of the names, after an entry was written. -/
theorem slot?_write {found : KeycodeMatch} :
    (fun n => ((write .absent names name found).getD n .absent).slot?) =
      Function.update (fun n => (names.getD n .absent).slot?) name found.slot? := by
  ext1 n
  rw [getD_write, update_apply]
  split_ifs <;> rfl

/-- The slots of the names, after an entry was deleted. -/
theorem slot?_set_absent :
    (fun n => ((names.set name .absent).getD n .absent).slot?) =
      Function.update (fun n => (names.getD n .absent).slot?) name none := by
  ext1 n
  rw [update_apply]
  rcases lt_or_ge name names.length with hlt | hge
  · rw [getD_set hlt]
    split_ifs <;> rfl
  · rw [set_eq_of_length_le hge]
    split_ifs with hn
    · rw [hn, getD_eq_default _ _ hge]
      rfl
    · rfl

/-- An alias, or a name without a key, gets the entry of an alias. -/
theorem Valid.insertAlias (h : store.Valid) (hfree : store.slotOf name = none) (real : AtomId) :
    (store.insertAlias name real).Valid := by
  refine h.of_slotOf fun n => ?_
  rw [congrFun slot?_write n, update_apply]
  split_ifs with hn
  · rw [hn, hfree]
    rfl
  · rfl

theorem Valid.updateAlias (h : store.Valid) (hold : store.lookupName name = .aliasOf old)
    (real : AtomId) : (store.updateAlias name real).Valid := by
  refine h.of_slotOf fun n => ?_
  have hlt : name < store.names.length := by
    refine lt_length_of_getD_ne (d := .absent) ?_
    rw [lookupName] at hold
    rw [hold]
    exact KeycodeMatch.noConfusion
  rw [getD_set hlt]
  split_ifs with hn
  · rw [hn, slotOf, hold]
    rfl
  · rfl

theorem Valid.deleteName (h : store.Valid) (hfree : store.slotOf name = none) :
    (store.deleteName name).Valid ∧ (store.deleteName name).slotOf name = none := by
  have hslots : (store.deleteName name).slotOf = Function.update store.slotOf name none :=
    slot?_set_absent
  constructor
  · refine h.of_slotOf fun n => ?_
    rw [← hfree, update_eq_self] at hslots
    exact congrFun hslots n
  · rw [hslots, update_self]

/-! ### Low keycodes -/

section Low

variable {store' : KeycodeStore} (hhigh : store'.high = store.high)
  (hlow : ∀ kc, store'.low.getD kc xkbAtomNone =
    if kc = index then name else store.low.getD kc xkbAtomNone)

include hhigh hlow

/-- The names of the slots, after the name of a low keycode was changed. -/
theorem nameAt_of_low : store'.nameAt = Function.update store.nameAt (.low index) name := by
  ext1 slot
  rw [update_apply]
  rcases slot with kc | i
  · rw [nameAt, hlow kc]
    simp only [KeySlot.low.injEq]
    rfl
  · rw [if_neg KeySlot.noConfusion, nameAt, hhigh]
    rfl

/-- The keycodes, after a low keycode got a name. -/
theorem keycodes_of_low (hname : name ≠ xkbAtomNone) :
    store'.keycodes = insert index store.keycodes := by
  ext kc
  rw [keycodes, Set.mem_ofPred_eq, hlow, hhigh, Set.mem_insert_iff]
  split_ifs with heq
  · exact iff_of_true (.inl hname) (.inl heq)
  · exact (or_iff_right heq).symm

/-- A low keycode gets a name. -/
theorem Valid.of_low (h : store.Valid) (hname : name ≠ xkbAtomNone)
    (hle : index ≤ xkbKeycodeMaxContiguous)
    (hlength : store'.low.length = max store.low.length (index + 1))
    (hlinked : Index.Matches xkbAtomNone (Function.update store.nameAt (.low index) name)
      store'.slotOf)
    (hmin : IsLeast (insert index store.keycodes) store'.min) : store'.Valid := by
  refine ⟨⟨?_, fun i hi => ?_, hhigh ▸ h.high_lt, hhigh ▸ h.high_gt, hhigh ▸ h.high_le,
    hhigh ▸ h.high_named⟩, ?_, .inl ?_⟩
  · have := h.low_le
    omega
  · rw [hlow]
    split_ifs with heq
    · exact hname
    · exact h.low_last i (by omega)
  · rwa [nameAt_of_low hhigh hlow]
  · rwa [keycodes_of_low hhigh hlow hname]

end Low

/-- A low key is inserted. -/
theorem Valid.insertKey_low (h : store.Valid) (hname : name ≠ xkbAtomNone)
    (hfree : store.slotOf name = none) (hkc : kc ∉ store.keycodes)
    (hle : kc ≤ xkbKeycodeMaxContiguous) : (store.insertKey kc name).Valid := by
  rw [insertKey, if_pos hle]
  refine h.of_low ?_ (fun i => ?_) hname hle ?_ ?_ ?_
  · rfl
  · exact getD_write
  · exact length_write
  · have hnone : store.nameAt (.low kc) = xkbAtomNone := by
      by_contra hne
      exact hkc (.inl hne)
    exact (congrArg (Index.Matches xkbAtomNone _) slot?_write).mpr (h.linked.fill hnone hname hfree)
  · exact IsMin.insert h.isMin (by rw [xkbKeycodeMaxContiguous] at hle; rw [xkbKeycodeMax]; omega)

/-- The slots, after the name of a slot was replaced: it is emptied and filled again. -/
theorem Valid.linked_replace (h : store.Valid) (hname : name ≠ xkbAtomNone)
    (hfree : store.slotOf name = none) :
    Index.Matches xkbAtomNone (Function.update store.nameAt slot name)
      (Function.update (Function.update store.slotOf (store.nameAt slot) none) name
        (some slot)) := by
  have hfree' : Function.update store.slotOf (store.nameAt slot) none name = none := by
    rw [update_apply, hfree, ite_self]
  have hfill := (h.linked.clear slot).fill (update_self ..) hname hfree'
  rwa [update_idem] at hfill

theorem slotOf_replace :
    ((store.deleteName old).updateKey (.key slot) name).slotOf =
      Function.update (Function.update store.slotOf old none) name (some slot) := by
  have hslots : (fun n => ((write .absent (store.names.set old .absent) name
      (.key slot)).getD n .absent).slot?) =
      Function.update (Function.update store.slotOf old none) name (some slot) := by
    rw [slot?_write, slot?_set_absent]
    rfl
  rcases slot with kc | index
  · exact hslots
  · exact hslots

/-- The name of a low keycode is replaced. -/
theorem Valid.replace_low (h : store.Valid) (hname : name ≠ xkbAtomNone)
    (hfree : store.slotOf name = none) (hold : store.nameAt (.low kc) ≠ xkbAtomNone) :
    ((store.deleteName (store.nameAt (.low kc))).updateKey (.key (.low kc)) name).Valid := by
  have hlt := lt_length_of_nameAt_low hold
  have hle : kc ≤ xkbKeycodeMaxContiguous := by
    have := h.low_le
    omega
  refine h.of_low ?_ (fun i => ?_) hname hle ?_ ?_ ?_
  · rfl
  · exact getD_set hlt
  · exact length_set.trans (max_eq_left hlt).symm
  · rw [slotOf_replace]
    exact h.linked_replace hname hfree
  · have hmem : kc ∈ store.keycodes := .inl hold
    rw [Set.insert_eq_of_mem hmem]
    exact h.isMin.resolve_right fun hempty => absurd (hempty.1 ▸ hmem) (Set.notMem_empty kc)

/-- If a low keycode other than the minimum has a name, so has a smaller one. -/
theorem Valid.low_min (h : store.Valid) (hold : store.nameAt (.low index) ≠ xkbAtomNone)
    (hmin : store.min ≠ index) :
    store.min < index ∧ store.low.getD store.min xkbAtomNone ≠ xkbAtomNone := by
  have hmem : index ∈ store.keycodes := .inl hold
  have hlt : store.min < index := lt_of_le_of_ne (h.isMin.le hmem) hmin
  refine ⟨hlt, ?_⟩
  rcases h.isMin with ⟨hleast | ⟨entry, hentry, hkeycode⟩, -⟩ | ⟨hempty, -⟩
  · exact hleast
  · have hgt := h.high_gt entry hentry
    have hindex := lt_length_of_nameAt_low hold
    have hle := h.low_le
    omega
  · exact absurd (hempty ▸ hmem) (Set.notMem_empty index)

/-- **The low table without a key**: only that slot has changed, and the last one is defined. -/
theorem Valid.lowWithout (h : store.Valid) (hold : store.nameAt (.low index) ≠ xkbAtomNone) :
    (∀ kc, (store.lowWithout index).getD kc xkbAtomNone =
      if kc = index then xkbAtomNone else store.low.getD kc xkbAtomNone) ∧
    (store.lowWithout index).length ≤ store.low.length ∧
    ∀ i, (store.lowWithout index).length = i + 1 →
      (store.lowWithout index).getD i xkbAtomNone ≠ xkbAtomNone := by
  have hlt := lt_length_of_nameAt_low hold
  have hpast : ∀ kc, store.low.length ≤ kc → store.low.getD kc xkbAtomNone = xkbAtomNone :=
    fun kc hkc => getD_eq_default _ _ hkc
  rw [KeycodeStore.lowWithout]
  split_ifs with hlast hmin
  · -- the key is the only low one
    refine ⟨?_, Nat.zero_le _, ?_⟩
    · intro kc
      split_ifs with hkc
      · rfl
      · by_contra hne
        have hdefined : store.low.getD kc xkbAtomNone ≠ xkbAtomNone := fun heq => hne heq.symm
        have hle := h.isMin.le (.inl hdefined)
        exact hdefined (hpast kc (by omega))
    · intro i hi
      cases hi
  · -- the key is the last one of several
    obtain ⟨hminLt, hminDefined⟩ := h.low_min hold hmin
    obtain ⟨size, hsize⟩ := lastDefined_isSome hminLt hminDefined
    obtain ⟨hle, ⟨k, rfl, hk⟩, hbetween⟩ := lastDefined_eq_some hsize
    rw [hsize]
    dsimp only
    have htake : ∀ i, (store.low.take (k + 1)).getD i xkbAtomNone =
        if i < k + 1 then store.low.getD i xkbAtomNone else xkbAtomNone := by
      intro i
      rw [getD_eq_getElem?_getD, getElem?_take]
      split_ifs
      · exact getD_eq_getElem?_getD.symm
      · rfl
    refine ⟨?_, length_take_le' .., ?_⟩
    · intro kc
      rw [htake]
      split_ifs with hkc hindex hindex
      · omega
      · rfl
      · rfl
      · rcases lt_or_ge kc index with hkcIndex | hkcIndex
        · exact (hbetween kc (by omega) hkcIndex).symm
        · exact (hpast kc (by omega)).symm
    · intro i hi
      rw [length_take] at hi
      obtain rfl : i = k := by omega
      rw [htake, if_pos (Nat.lt_succ_self i)]
      exact hk
  · -- a key in the middle leaves a hole
    refine ⟨fun kc => getD_set hlt, (length_set ..).le, ?_⟩
    intro i hi
    rw [length_set] at hi
    rw [getD_set hlt, if_neg (by omega)]
    exact h.low_last i hi

/-- After a key was deleted the minimum is recomputed. -/
theorem Shape.valid_updateBounds (h : store.Shape)
    (hlinked : Index.Matches xkbAtomNone store.nameAt store.slotOf)
    (hmin : ∀ kc ∈ store.keycodes, store.min ≤ kc) : store.updateBounds.Valid := by
  have hbounds : ∃ min, store.updateBounds = { store with min } := by
    rw [updateBounds]
    split_ifs
    · exact ⟨_, rfl⟩
    · exact ⟨_, rfl⟩
  have hisMin := h.isMin_updateBounds hmin
  obtain ⟨min, hmin'⟩ := hbounds
  rw [hmin'] at hisMin ⊢
  exact ⟨h.of_tables rfl rfl, hlinked, hisMin⟩

theorem updateBounds_slotOf : store.updateBounds.slotOf = store.slotOf := by
  rw [updateBounds]
  split_ifs <;> rfl

/-- **A low key is deleted**, and its name is free. -/
theorem Valid.deleteKey_low (h : store.Valid) (hold : store.nameAt (.low index) ≠ xkbAtomNone) :
    (store.deleteKey (.key (.low index))).Valid ∧
    (store.deleteKey (.key (.low index))).slotOf (store.nameAt (.low index)) = none := by
  obtain ⟨store', hstore⟩ : ∃ store' : KeycodeStore, store' = { store with
      low := store.lowWithout index
      names := store.names.set (store.nameAt (.low index)) .absent } := ⟨_, rfl⟩
  have hdelete : store.deleteKey (.key (.low index)) = store'.updateBounds := by
    rw [deleteKey, hstore]
  obtain ⟨hgetD, hlength, hlast⟩ := h.lowWithout hold
  have hhigh : store'.high = store.high := by rw [hstore]
  have hlow : store'.low = store.lowWithout index := by rw [hstore]
  have hslotOf : store'.slotOf = Function.update store.slotOf (store.nameAt (.low index)) none := by
    rw [hstore]
    exact slot?_set_absent
  rw [← hlow] at hgetD hlength hlast
  rw [hdelete, updateBounds_slotOf]
  constructor
  · refine Shape.valid_updateBounds ⟨hlength.trans h.low_le, hlast, hhigh ▸ h.high_lt,
      hhigh ▸ h.high_gt, hhigh ▸ h.high_le, hhigh ▸ h.high_named⟩ ?_ ?_
    · rw [nameAt_of_low hhigh hgetD, hslotOf]
      exact h.linked.clear (.low index)
    · have hmin : store'.min = store.min := by rw [hstore]
      rintro kc (hkc | hkc)
      · rw [hgetD] at hkc
        split_ifs at hkc
        · exact absurd rfl hkc
        · exact hmin ▸ h.isMin.le (.inl hkc)
      · exact hmin ▸ h.isMin.le (.inr (hhigh ▸ hkc))
  · rw [hslotOf, update_self]

/-! ### High keycodes -/

theorem mem_keycodes_iff :
    kc ∈ store.keycodes ↔
      store.low.getD kc xkbAtomNone ≠ xkbAtomNone ∨ kc ∈ store.high.map (·.keycode) := by
  rw [mem_map]
  rfl

/-- The name of a high keycode is replaced. -/
theorem Valid.replace_high (h : store.Valid) (hname : name ≠ xkbAtomNone)
    (hfree : store.slotOf name = none) (hold : store.nameAt (.high index) ≠ xkbAtomNone) :
    ((store.deleteName (store.nameAt (.high index))).updateKey (.key (.high index))
      name).Valid := by
  obtain ⟨store', hstore⟩ : ∃ store',
    (store.deleteName (store.nameAt (.high index))).updateKey (.key (.high index)) name = store' :=
    ⟨_, rfl⟩
  have hslotOf : store'.slotOf = Function.update
      (Function.update store.slotOf (store.nameAt (.high index)) none) name
        (some (.high index)) := by
    rw [← hstore, slotOf_replace]
  rw [hstore]
  rw [updateKey, KeycodeStore.deleteName] at hstore
  have hlow : store'.low = store.low := by rw [← hstore]
  have hhigh : ∀ i, store'.high[i]? =
      (store.high[i]?).map fun entry => if index = i then { entry with name } else entry := by
    intro i
    rw [← hstore, getElem?_modify]
    rfl
  have hkeycode : store'.high.map (·.keycode) = store.high.map (·.keycode) := by
    refine ext_getElem? fun i => ?_
    rw [getElem?_map, getElem?_map, hhigh, Option.map_map]
    congr 1
    ext1 entry
    rw [comp_apply]
    split_ifs <;> rfl
  have hnameAt : store'.nameAt = Function.update store.nameAt (.high index) name := by
    ext1 slot
    rw [update_apply]
    rcases slot with kc | i
    · rw [if_neg KeySlot.noConfusion, nameAt, hlow]
      rfl
    · rw [nameAt, hhigh]
      by_cases hi : index = i
      · subst hi
        rw [getElem?_eq_getElem (lt_length_of_nameAt_high hold)]
        simp
      · simp [hi, Ne.symm hi, nameAt]
  have hmem : ∀ entry' ∈ store'.high, ∃ entry ∈ store.high, entry.keycode = entry'.keycode :=
    fun entry' hentry' => mem_map.mp (hkeycode ▸ mem_map_of_mem hentry')
  refine ⟨⟨hlow ▸ h.low_le, hlow ▸ h.low_last, ?_, ?_, ?_, ?_⟩, ?_, ?_⟩
  · have hpairwise := pairwise_map.mpr h.high_lt
    rw [← hkeycode] at hpairwise
    exact pairwise_map.mp hpairwise
  · intro entry' hentry'
    obtain ⟨entry, hentry, heq⟩ := hmem entry' hentry'
    exact heq ▸ h.high_gt entry hentry
  · intro entry' hentry'
    obtain ⟨entry, hentry, heq⟩ := hmem entry' hentry'
    exact heq ▸ h.high_le entry hentry
  · intro entry' hentry'
    obtain ⟨i, hi⟩ := getElem?_of_mem hentry'
    rw [hhigh] at hi
    obtain ⟨entry, hentry, rfl⟩ := Option.map_eq_some_iff.mp hi
    split_ifs
    · exact hname
    · exact h.high_named entry (mem_of_getElem? hentry)
  · rw [hnameAt, hslotOf]
    exact h.linked_replace hname hfree
  · have hmin : store'.min = store.min := by rw [← hstore]
    have hkeycodes : store'.keycodes = store.keycodes := by
      ext kc
      rw [mem_keycodes_iff, mem_keycodes_iff, hlow, hkeycode]
    rw [IsMin, hkeycodes, hmin]
    exact h.isMin

end KeycodeStore

/-- Where a slot is after a high key was removed. -/
def KeySlot.afterRemoval (removed : ℕ) : KeySlot → KeySlot
  | .high index => .high (if removed < index then index - 1 else index)
  | slot => slot

/-- Where a slot is after a high key was inserted. -/
def KeySlot.afterInsertion (inserted : ℕ) : KeySlot → KeySlot
  | .high index => .high (if index < inserted then index else index + 1)
  | slot => slot

theorem KeycodeMatch.slot?_afterRemoval (removed : ℕ) (found : KeycodeMatch) :
    (found.afterRemoval removed).slot? = found.slot?.map (KeySlot.afterRemoval removed) := by
  rcases found with - | (kc | index) | real <;> rfl

namespace KeycodeStore

/-- **A high key is deleted**, and its name is free. -/
theorem Valid.deleteKey_high (h : store.Valid) :
    (store.deleteKey (.key (.high index))).Valid ∧
    (store.deleteKey (.key (.high index))).slotOf (store.nameAt (.high index)) = none := by
  obtain ⟨store', hstore⟩ : ∃ store' : KeycodeStore, store' = { store with
      high := store.high.eraseIdx index
      names := (store.names.set (store.nameAt (.high index)) .absent).map
        (afterRemoval index) } := ⟨_, rfl⟩
  have hdelete : store.deleteKey (.key (.high index)) = store'.updateBounds := by
    rw [deleteKey, hstore]
  have hlow : store'.low = store.low := by rw [hstore]
  have hhigh : store'.high = store.high.eraseIdx index := by rw [hstore]
  have hmem : ∀ entry ∈ store'.high, entry ∈ store.high := by
    intro entry hentry
    rw [hhigh] at hentry
    exact mem_of_mem_eraseIdx hentry
  have hslotOf : store'.slotOf = fun n =>
      (Function.update store.slotOf (store.nameAt (.high index)) none n).map
        (KeySlot.afterRemoval index) := by
    ext1 n
    rw [hstore]
    refine (congrArg slot? (getD_map _ absent _)).trans ?_
    rw [slot?_afterRemoval, congrFun slot?_set_absent n]
    rfl
  have hnameAt : ∀ i, store'.nameAt (.high i) =
      store.nameAt (.high (if i < index then i else i + 1)) := by
    intro i
    rw [nameAt, hhigh, getElem?_eraseIdx]
    split_ifs <;> rfl
  have hnameAtLow : ∀ kc, store'.nameAt (.low kc) = store.nameAt (.low kc) := by
    intro kc
    rw [nameAt, hlow]
    rfl
  rw [hdelete, updateBounds_slotOf]
  constructor
  · refine Shape.valid_updateBounds ⟨hlow ▸ h.low_le, hlow ▸ h.low_last, ?_,
      fun entry hentry => h.high_gt entry (hmem entry hentry),
      fun entry hentry => h.high_le entry (hmem entry hentry),
      fun entry hentry => h.high_named entry (hmem entry hentry)⟩ ?_ ?_
    · rw [hhigh]
      exact h.high_lt.sublist (eraseIdx_sublist _ _)
    · -- the slot is emptied, and those after it move down
      rw [hslotOf]
      refine (h.linked.clear (.high index)).renumber (KeySlot.afterRemoval index) ?_ ?_
      · intro slot hslot
        rw [update_apply] at hslot ⊢
        split_ifs at hslot ⊢ with heq
        · exact absurd rfl hslot
        rcases slot with kc | i
        · exact hnameAtLow kc
        · have hne : i ≠ index := fun hi => heq (congrArg KeySlot.high hi)
          rw [KeySlot.afterRemoval, hnameAt]
          congr 2
          split_ifs <;> omega
      · intro slot hslot
        rcases slot with kc | i
        · exact ⟨.low kc, rfl, by
            rwa [update_of_ne KeySlot.noConfusion, ← hnameAtLow]⟩
        · rw [hnameAt] at hslot
          refine ⟨.high (if i < index then i else i + 1), ?_, ?_⟩
          · rw [KeySlot.afterRemoval]
            congr 1
            split_ifs <;> omega
          · rwa [update_of_ne]
            intro heq
            have := KeySlot.high.inj heq
            split_ifs at this <;> omega
    · have hmin : store'.min = store.min := by rw [hstore]
      rintro kc (hkc | ⟨entry, hentry, hkc⟩)
      · exact hmin ▸ h.isMin.le (.inl (hlow ▸ hkc))
      · exact hmin ▸ h.isMin.le (.inr ⟨entry, hmem entry hentry, hkc⟩)
  · rw [hslotOf]
    dsimp only
    rw [update_self]
    rfl

/-- The names of the high keys are different. -/
theorem Valid.high_nodup (h : store.Valid) : (store.high.map (·.name)).Nodup := by
  refine pairwise_map.mpr (pairwise_iff_getElem.mpr ?_)
  intro i j hi hj hij heq
  obtain ⟨hnamei, -⟩ := mem_high_of_getElem? (getElem?_eq_getElem hi)
  obtain ⟨hnamej, -⟩ := mem_high_of_getElem? (getElem?_eq_getElem hj)
  have hslots := h.linked.injective
    (hnamei ▸ h.high_named _ (getElem_mem hi)) (hnamei.trans (heq.trans hnamej.symm))
  exact absurd (KeySlot.high.inj hslots) hij.ne

/-- A key among those that an insertion moves. -/
theorem mem_moved_iff :
    name ∈ (store.high.drop index).map (·.name) ↔
      ∃ i, index ≤ i ∧ (store.high[i]?).map (·.name) = some name := by
  rw [mem_map]
  constructor
  · rintro ⟨entry, hentry, rfl⟩
    obtain ⟨i, hi⟩ := getElem?_of_mem hentry
    rw [getElem?_drop] at hi
    exact ⟨index + i, Nat.le_add_right _ _, by rw [hi]; rfl⟩
  · rintro ⟨i, hle, hi⟩
    obtain ⟨entry, hentry, rfl⟩ := Option.map_eq_some_iff.mp hi
    refine ⟨entry, mem_of_getElem? (i := i - index) ?_, rfl⟩
    rw [getElem?_drop, Nat.add_sub_cancel' hle, hentry]

/-- **The references to the keys that an insertion moves are updated**: all others stay. -/
theorem Valid.slot?_moved (h : store.Valid) (n : AtomId) :
    ((((store.high.drop index).map (·.name)).foldl
      (fun names moved => names.modify moved KeycodeMatch.moveUp)
      (grow .absent store.names name)).getD n .absent).slot? =
      (store.slotOf n).map (KeySlot.afterInsertion index) := by
  have hentry : ∀ n i, (store.high[i]?).map (·.name) = some n →
      store.lookupName n = .key (.high i) := by
    intro n i hi
    obtain ⟨entry, hentry, rfl⟩ := Option.map_eq_some_iff.mp hi
    obtain ⟨hname, -⟩ := mem_high_of_getElem? hentry
    have hslot := h.linked.slot_name (hname ▸ h.high_named entry (mem_of_getElem? hentry))
    rw [hname, slotOf] at hslot
    rcases hfound : store.lookupName entry.name with - | slot | real <;> rw [hfound] at hslot
    · exact absurd hslot (by simp [KeycodeMatch.slot?])
    · exact congrArg KeycodeMatch.key (Option.some.inj hslot)
    · exact absurd hslot (by simp [KeycodeMatch.slot?])
  have hlt : ∀ moved ∈ (store.high.drop index).map (·.name),
      moved < (grow KeycodeMatch.absent store.names name).length := by
    intro moved hmoved
    obtain ⟨i, -, hi⟩ := mem_moved_iff.mp hmoved
    have hlookup := hentry moved i hi
    refine lt_of_lt_of_le (lt_length_of_getD_ne (d := KeycodeMatch.absent) (l := store.names) ?_) ?_
    · rw [lookupName] at hlookup
      rw [hlookup]
      exact KeycodeMatch.noConfusion
    · rw [length_grow]
      exact le_max_left _ _
  have hnodup : ((store.high.drop index).map (·.name)).Nodup := by
    rw [map_drop]
    exact h.high_nodup.sublist (drop_sublist _ _)
  rw [getD_foldl_modify hnodup hlt, getD_grow]
  split_ifs with hmoved
  · obtain ⟨i, hle, hi⟩ := mem_moved_iff.mp hmoved
    have hlookup := hentry n i hi
    rw [slotOf, hlookup]
    rw [lookupName] at hlookup
    rw [hlookup]
    show some (KeySlot.high (i + 1)) = some (KeySlot.high (if i < index then i else i + 1))
    rw [if_neg (not_lt.mpr hle)]
  · show store.slotOf n = _
    rcases hslot : store.slotOf n with - | kc | i
    · rfl
    · rfl
    · -- a high key that does not move is before the index
      obtain ⟨hname, hne⟩ := (h.linked n (.high i)).mp hslot
      obtain ⟨entry, hentry', hname', -⟩ := exists_entry_of_nameAt (hname ▸ hne)
      have hi : i < index := by
        by_contra hge
        refine hmoved (mem_moved_iff.mpr ⟨i, Nat.le_of_not_lt hge, ?_⟩)
        rw [hentry', Option.map_some, hname', hname]
      show some (KeySlot.high i) = some (KeySlot.high (if i < index then i else i + 1))
      rw [if_pos hi]

/-- **A high key is inserted** at its place. -/
theorem Valid.insertHigh (h : store.Valid) (hname : name ≠ xkbAtomNone)
    (hfree : store.slotOf name = none) (hgt : xkbKeycodeMaxContiguous < kc)
    (hle : kc ≤ xkbKeycodeMax) (hindex : index ≤ store.high.length)
    (hbefore : ∀ entry ∈ store.high.take index, entry.keycode < kc)
    (hafter : ∀ entry ∈ store.high.drop index, kc < entry.keycode) :
    (store.insertHigh index kc name).Valid := by
  obtain ⟨store', hstore⟩ : ∃ store', store.insertHigh index kc name = store' := ⟨_, rfl⟩
  rw [hstore]
  rw [KeycodeStore.insertHigh] at hstore
  have hlow : store'.low = store.low := by rw [← hstore]
  have hhigh : store'.high = store.high.insertIdx index ⟨kc, name⟩ := by rw [← hstore]
  have hmem : ∀ entry, entry ∈ store'.high ↔ entry = ⟨kc, name⟩ ∨ entry ∈ store.high := by
    intro entry
    rw [hhigh, mem_insertIdx hindex]
  have hslotOf : store'.slotOf = Function.update
      (fun n => (store.slotOf n).map (KeySlot.afterInsertion index)) name (some (.high index)) := by
    ext1 n
    rw [update_apply, ← h.slot?_moved, ← hstore]
    refine (congrArg slot? (getD_set ?_)).trans ?_
    · rw [length_foldl_modify]
      exact lt_length_grow
    · split_ifs <;> rfl
  have hnameAt : ∀ i, store'.nameAt (.high i) =
      if i < index then store.nameAt (.high i) else if i = index then name
        else store.nameAt (.high (i - 1)) := by
    intro i
    rw [nameAt, hhigh, getElem?_insertIdx]
    split_ifs with hi hi' hi''
    · rfl
    · rfl
    · omega
    · rfl
  have hnameAtLow : ∀ kc, store'.nameAt (.low kc) = store.nameAt (.low kc) := by
    intro kc
    rw [nameAt, hlow]
    rfl
  have hshape : store'.Shape := by
    refine ⟨hlow ▸ h.low_le, hlow ▸ h.low_last, ?_, ?_, ?_, ?_⟩
    · rw [hhigh]
      exact pairwise_insertIdx h.high_lt hbefore hafter
    all_goals
      intro entry hentry
      rcases (hmem entry).mp hentry with rfl | hentry
    · exact hgt
    · exact h.high_gt entry hentry
    · exact hle
    · exact h.high_le entry hentry
    · exact hname
    · exact h.high_named entry hentry
  refine ⟨hshape, ?_, ?_⟩
  · -- the slots from the index on move up, and the empty one is filled
    rw [hslotOf]
    have hmoved : Index.Matches xkbAtomNone
        (Function.update store'.nameAt (.high index) xkbAtomNone)
        (fun n => (store.slotOf n).map (KeySlot.afterInsertion index)) := by
      refine h.linked.renumber (KeySlot.afterInsertion index) ?_ ?_
      · intro slot hslot
        rcases slot with kc | i
        · show Function.update store'.nameAt (.high index) xkbAtomNone (.low kc) = _
          rw [update_of_ne KeySlot.noConfusion, hnameAtLow]
        · rw [KeySlot.afterInsertion, update_of_ne, hnameAt]
          · split_ifs with hi hi' hi'
            · rfl
            · omega
            · omega
            · rfl
          · intro heq
            have := KeySlot.high.inj heq
            split_ifs at this <;> omega
      · intro slot hslot
        rw [update_apply] at hslot
        split_ifs at hslot with heq
        · exact absurd rfl hslot
        rcases slot with kc | i
        · exact ⟨.low kc, rfl, by rwa [← hnameAtLow]⟩
        · have hne : i ≠ index := fun hi => heq (congrArg KeySlot.high hi)
          rw [hnameAt] at hslot
          split_ifs at hslot with hi
          · exact ⟨.high i, by rw [KeySlot.afterInsertion, if_pos hi], hslot⟩
          · refine ⟨.high (i - 1), ?_, hslot⟩
            rw [KeySlot.afterInsertion]
            congr 1
            split_ifs <;> omega
    have hfill := hmoved.fill (update_self ..) hname (by rw [hfree]; rfl)
    have hself : store'.nameAt (.high index) = name := by
      rw [hnameAt, if_neg (lt_irrefl index), if_pos rfl]
    rwa [update_idem, ← hself, update_eq_self, hself] at hfill
  · have hmin : store'.min = if store.low.isEmpty then
        ((store'.high.head?).map (·.keycode)).getD xkbKeycodeInvalid else store.min := by
      rw [← hstore]
    split_ifs at hmin with hempty
    · exact hshape.isMin_head (hlow.trans (List.isEmpty_iff.mp hempty)) hmin
    · -- the minimum is a low keycode
      obtain ⟨last, hlast⟩ : ∃ last, store.low.length = last + 1 :=
        Nat.exists_eq_succ_of_ne_zero fun hzero => hempty (List.isEmpty_iff.mpr
          (eq_nil_of_length_eq_zero hzero))
      have hminLe := h.isMin.le (.inl (h.low_last last hlast))
      have hlowLe := h.low_le
      have hleast := IsMin.insert h.isMin hle
      rw [if_neg (by omega), ← hmin] at hleast
      have hkeycodes : store'.keycodes = insert kc store.keycodes := by
        ext kc'
        simp only [keycodes, Set.mem_ofPred_eq, hlow, Set.mem_insert_iff, hmem, exists_eq_or_imp]
        rw [or_left_comm, eq_comm]
      exact .inl (hkeycodes ▸ hleast)

/-- **A key is inserted**: its keycode and its name are free. -/
theorem Valid.insertKey (h : store.Valid) (hname : name ≠ xkbAtomNone)
    (hfree : store.slotOf name = none) (hkc : kc ∉ store.keycodes) (hle : kc ≤ xkbKeycodeMax) :
    (store.insertKey kc name).Valid := by
  by_cases hlow : kc ≤ xkbKeycodeMaxContiguous
  · exact h.insertKey_low hname hfree hkc hlow
  have hgt : xkbKeycodeMaxContiguous < kc := Nat.lt_of_not_le hlow
  rw [KeycodeStore.insertKey, if_neg hlow]
  rcases hlast : store.high.getLast? with - | last
  · have hempty := getLast?_eq_none_iff.mp hlast
    refine h.insertHigh hname hfree hgt hle (Nat.zero_le _) ?_ ?_ <;> simp [hempty]
  dsimp only
  split_ifs with hlt
  · have hne : ∀ i, 0 ≤ i → i < store.high.length → store.highKeycode i ≠ some kc := by
      intro i _ _ hi
      obtain ⟨entry, hentry, rfl⟩ := Option.map_eq_some_iff.mp hi
      exact hkc (.inr ⟨entry, mem_of_getElem? hentry, rfl⟩)
    obtain ⟨index, hmissing, hplace⟩ := search_of_forall_ne
      h.increasing (Nat.zero_le _) (Nat.sub_le _ _) hne
    rw [hmissing]
    refine h.insertHigh hname hfree hgt hle hplace.le_upper ?_ ?_
    · intro entry hentry
      obtain ⟨i, hi, hi'⟩ := mem_take_iff_getElem.mp hentry
      refine hplace.lt i entry.keycode (Nat.zero_le i) (by omega) ?_
      rw [highKeycode, getElem?_eq_getElem (by omega), ← hi']
      rfl
    · intro entry hentry
      obtain ⟨i, hi, hi'⟩ := mem_drop_iff_getElem.mp hentry
      refine hplace.gt (index + i) entry.keycode (Nat.le_add_right _ _) (by omega) ?_
      rw [highKeycode, getElem?_eq_getElem (by omega), ← hi']
      rfl
  · -- all keycodes are smaller
    refine h.insertHigh hname hfree hgt hle (le_refl _) ?_ ?_
    · intro entry hentry
      rw [take_length] at hentry
      have hne : entry.keycode ≠ kc := fun heq => hkc (.inr ⟨entry, hentry, heq⟩)
      have hleLast := h.le_last hlast hentry
      omega
    · simp

end KeycodeStore

end Xkbcommon.Xkbcomp
