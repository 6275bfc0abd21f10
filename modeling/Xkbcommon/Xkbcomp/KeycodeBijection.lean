import Xkbcommon.Xkbcomp.KeycodeInvariant

/-!
# Keycodes and names are in bijection

Every store that the compiler can have keeps the invariant of
`Xkbcommon.Xkbcomp.KeycodeStore.Valid`. So a keycode that is looked up and a name that is looked up
are the two directions of one partial bijection, `Xkbcommon.Xkbcomp.KeycodeStore.Valid.bijection`.
-/

namespace Xkbcommon.Xkbcomp

open List Option

namespace KeycodeStore

variable {store : KeycodeStore} {kc : ℕ} {name : AtomId} {slot : KeySlot}

/-! ### Definitions keep the invariant -/

/-- A key is deleted, and its name is free. -/
theorem Valid.deleteKey (h : store.Valid) (hslot : store.nameAt slot ≠ xkbAtomNone) :
    (store.deleteKey (.key slot)).Valid ∧
    (store.deleteKey (.key slot)).slotOf (store.nameAt slot) = none := by
  rcases slot with kc | index
  · exact h.deleteKey_low hslot
  · exact h.deleteKey_high

/-- The name of a key is replaced by one that is free. -/
theorem Valid.replace (h : store.Valid) (hname : name ≠ xkbAtomNone)
    (hfree : store.slotOf name = none) (hslot : store.nameAt slot ≠ xkbAtomNone) :
    ((store.deleteName (store.nameAt slot)).updateKey (.key slot) name).Valid := by
  rcases slot with kc | index
  · exact h.replace_low hname hfree hslot
  · exact h.replace_high hname hfree hslot

/-- The entry of a key: its slot holds the name. -/
theorem Valid.nameAt_of_lookupName (h : store.Valid) (hfound : store.lookupName name = .key slot) :
    store.nameAt slot = name ∧ name ≠ xkbAtomNone := by
  refine (h.linked name slot).mp ?_
  rw [slotOf, hfound]
  rfl

/-- **The name of a keycode**, once the name is free or that of the keycode itself. -/
theorem Valid.nameKeycode (h : store.Valid) (hname : name ≠ xkbAtomNone) (hle : kc ≤ xkbKeycodeMax)
    (hslot : ∀ slot, store.slotOf name = some slot → store.keycodeAt slot = kc) (clobber : Bool) :
    (store.nameKeycode kc name clobber).Valid := by
  -- the keycode of the name's slot would have the name
  have hlookup : ∀ slot, store.slotOf name = some slot →
      store.getKeyName (store.lookupKeycode kc) = name := by
    intro slot hsome
    obtain ⟨hnameAt, -⟩ := (h.linked name slot).mp hsome
    rw [← hslot slot hsome, h.lookupKeycode_keycodeAt (hnameAt ▸ hname)]
    exact hnameAt
  have hfree : store.getKeyName (store.lookupKeycode kc) ≠ name → store.slotOf name = none := by
    intro hne
    rcases hsome : store.slotOf name with - | slot
    · rfl
    · exact absurd (hlookup slot hsome) hne
  rw [KeycodeStore.nameKeycode]
  split_ifs with hold hsame hclobber
  · exact h.insertKey hname (hfree (hold ▸ hname.symm)) (h.not_mem_keycodes hold) hle
  · exact h
  · obtain ⟨slot, hfound, -⟩ := h.lookupKeycode_of_getKeyName hold
    have hfree' := hfree hsame
    rw [hfound] at hold ⊢
    exact h.replace hname hfree' hold
  · exact h

/-- **A key definition keeps the invariant.** -/
theorem Valid.addKeyName (h : store.Valid) (hname : name ≠ xkbAtomNone) (hle : kc ≤ xkbKeycodeMax)
    (merge : MergeMode) : (store.addKeyName kc name merge).Valid := by
  rw [KeycodeStore.addKeyName]
  split
  · rename_i hfound
    refine h.nameKeycode hname hle ?_ _
    intro slot hslot
    rw [slotOf, hfound] at hslot
    exact absurd hslot (some_ne_none slot).symm
  · rename_i hfound
    split_ifs
    · have hnone : store.slotOf name = none := by
        rw [slotOf, hfound]
        rfl
      obtain ⟨hvalid, hfree⟩ := h.deleteName hnone
      refine hvalid.nameKeycode hname hle ?_ _
      intro slot hslot
      exact absurd (hfree.symm.trans hslot) (some_ne_none slot).symm
    · exact h
  · rename_i slot hfound
    obtain ⟨hnameAt, hne⟩ := h.nameAt_of_lookupName hfound
    split_ifs with hkc
    · obtain ⟨hvalid, hfree⟩ := h.deleteKey (hnameAt ▸ hne)
      refine hvalid.nameKeycode hname hle ?_ _
      intro slot hslot
      rw [hnameAt] at hfree
      exact absurd (hfree.symm.trans hslot) (some_ne_none slot).symm
    · exact h
    · refine h.nameKeycode hname hle ?_ _
      intro slot' hslot'
      rw [slotOf, hfound] at hslot'
      exact Option.some.inj hslot' ▸ not_not.mp hkc

/-- **An alias definition keeps the invariant.** -/
theorem Valid.handleAliasDef (h : store.Valid) (merge : MergeMode) (alt real : AtomId) :
    (store.handleAliasDef merge alt real).Valid := by
  rw [KeycodeStore.handleAliasDef]
  split
  · rename_i hfound
    exact h.insertAlias (by rw [slotOf, hfound]; rfl) real
  · rename_i old hfound
    split_ifs
    · exact h
    · exact h.updateAlias hfound _
    · exact h.updateAlias hfound _
  · rename_i slot hfound
    obtain ⟨hnameAt, hne⟩ := h.nameAt_of_lookupName hfound
    split_ifs
    · obtain ⟨hvalid, hfree⟩ := h.deleteKey (hnameAt ▸ hne)
      exact hvalid.insertAlias (hnameAt ▸ hfree) real
    · exact h

/-- The keys that a store hands on in a merge. -/
theorem Valid.mem_keys (h : store.Valid) {key : HighKeycodeEntry} (hkey : key ∈ store.keys) :
    key.keycode ≤ xkbKeycodeMax ∧ key.name ≠ xkbAtomNone := by
  rcases mem_append.mp hkey with hlow | hhigh
  · obtain ⟨kc, -, hkc⟩ := mem_filterMap.mp hlow
    split_ifs at hkc with hdefined
    obtain rfl := Option.some.inj hkc
    exact ⟨h.keycodes_le (.inl hdefined.2), hdefined.2⟩
  · exact ⟨h.high_le key hhigh, h.high_named key hhigh⟩

/-- **A merge keeps the invariant.** -/
theorem Valid.mergeKeycodeStores {into source : KeycodeStore} (h : into.Valid)
    (hsource : source.Valid) (merge : MergeMode) :
    (into.mergeKeycodeStores source merge).Valid := by
  rw [KeycodeStore.mergeKeycodeStores]
  split_ifs
  · exact hsource
  · have hkeys : ∀ keys : List HighKeycodeEntry, (∀ key ∈ keys, key ∈ source.keys) →
        ∀ store : KeycodeStore, store.Valid →
          (keys.foldl (fun store key => store.addKeyName key.keycode key.name merge)
            store).Valid := by
      intro keys
      induction keys with
      | nil => exact fun _ store hstore => hstore
      | cons key keys ih =>
        intro hmem store hstore
        obtain ⟨hle, hname⟩ := hsource.mem_keys (hmem key mem_cons_self)
        exact ih (fun key hkey => hmem key (.tail _ hkey)) _ (hstore.addKeyName hname hle merge)
    have haliases : ∀ (entries : List (AtomId × AtomId)) (store : KeycodeStore), store.Valid →
        (entries.foldl (fun store entry => store.handleAliasDef merge entry.1 entry.2)
          store).Valid := by
      intro entries
      induction entries with
      | nil => exact fun store hstore => hstore
      | cons entry entries ih =>
        exact fun store hstore => ih _ (hstore.handleAliasDef merge entry.1 entry.2)
    exact haliases _ _ (hkeys _ (fun _ hkey => hkey) into h)

theorem valid_init : ({} : KeycodeStore).Valid := by
  refine ⟨⟨Nat.zero_le _, ?_, .nil, ?_, ?_, ?_⟩, ?_, .inr ⟨?_, rfl⟩⟩
  · intro index hindex
    cases hindex
  · exact fun entry hentry => absurd hentry not_mem_nil
  · exact fun entry hentry => absurd hentry not_mem_nil
  · exact fun entry hentry => absurd hentry not_mem_nil
  · intro name slot
    have hnone : ({} : KeycodeStore).nameAt slot = xkbAtomNone := by
      rcases slot with kc | index <;> rfl
    rw [hnone]
    exact iff_of_false (some_ne_none slot).symm fun hname => hname.2 hname.1.symm
  · refine Set.eq_empty_iff_forall_notMem.mpr ?_
    rintro kc (hkc | ⟨entry, hentry, -⟩)
    · exact hkc rfl
    · exact absurd hentry not_mem_nil

/-- Every store that can be reached keeps the invariant. -/
theorem Reachable.valid (h : Reachable store) : store.Valid := by
  induction h with
  | init => exact valid_init
  | key merge _ hle hname ih => exact ih.addKeyName hname hle merge
  | aliasDef real merge _ _ ih => exact ih.handleAliasDef merge _ real
  | merge merge _ _ ih ihsource => exact ih.mergeKeycodeStores ihsource merge

/-! ### The bijection -/

/-- The name of a keycode that is looked up. -/
def nameOf? (store : KeycodeStore) (kc : ℕ) : Option AtomId :=
  let name := store.getKeyName (store.lookupKeycode kc)
  if name = xkbAtomNone then none else some name

/-- The keycode of a name that is looked up. -/
def keycodeOf? (store : KeycodeStore) (name : AtomId) : Option ℕ :=
  (store.slotOf name).map store.keycodeAt

/-- **The partial bijection** that a store describes. -/
def Valid.bijection (h : store.Valid) : ℕ ≃. AtomId where
  toFun := store.nameOf?
  invFun := store.keycodeOf?
  inv := by
    intro kc name
    rw [keycodeOf?, Option.map_eq_some_iff, nameOf?]
    constructor
    · rintro ⟨slot, hslot, rfl⟩
      obtain ⟨rfl, hne⟩ := (h.linked name slot).mp hslot
      rw [h.lookupKeycode_keycodeAt hne]
      exact if_neg hne
    · intro hname
      split_ifs at hname with hnone
      obtain rfl := Option.some.inj hname
      obtain ⟨slot, hfound, rfl⟩ := h.lookupKeycode_of_getKeyName hnone
      rw [hfound] at hnone ⊢
      exact ⟨slot, (h.linked _ slot).mpr ⟨rfl, hnone⟩, rfl⟩

/-- The keycodes with a name are those of the two tables. -/
theorem Valid.isSome_nameOf? (h : store.Valid) :
    (store.nameOf? kc).isSome ↔ kc ∈ store.keycodes := by
  rw [nameOf?]
  split_ifs with hnone
  · exact iff_of_false (by simp) (h.not_mem_keycodes hnone)
  · refine iff_of_true rfl ?_
    obtain ⟨slot, hfound, rfl⟩ := h.lookupKeycode_of_getKeyName hnone
    rw [hfound] at hnone
    exact mem_keycodes hnone

/-- **The invariant of the store of keycodes**, after any definitions of keys and aliases and any
merges: the tables have their shape and link names and slots to each other, the minimum is the least
keycode, and the two ways to look up are one partial bijection. -/
theorem reachable_describes_bijection (h : Reachable store) :
    store.Valid ∧ ∃ f : ℕ ≃. AtomId, (∀ kc, f kc = store.nameOf? kc) ∧
      (∀ name, f.symm name = store.keycodeOf? name) ∧ ∀ kc, (f kc).isSome ↔ kc ∈ store.keycodes :=
  ⟨h.valid, h.valid.bijection, fun _ => rfl, fun _ => rfl, fun _ => h.valid.isSome_nameOf?⟩

/-- A high key is inserted before another one, the other one gets an alias, and the first takes over
its keycode. -/
def movedStore : KeycodeStore :=
  ((({} : KeycodeStore).addKeyName 5000 1 .override).addKeyName 4999 2 .override
    |>.handleAliasDef .override 3 1).addKeyName 5000 2 .override

/-- The store with the moved key. -/
theorem reachable_describes_bijection_moved :
    movedStore.Valid ∧ ∃ f : ℕ ≃. AtomId, (∀ kc, f kc = movedStore.nameOf? kc) ∧
      (∀ name, f.symm name = movedStore.keycodeOf? name) ∧
      ∀ kc, (f kc).isSome ↔ kc ∈ movedStore.keycodes :=
  reachable_describes_bijection
    (.key .override
      (.aliasDef 1 .override
        (.key .override (.key .override .init (by decide) (by decide)) (by decide) (by decide))
        (by decide))
      (by decide) (by decide))

end KeycodeStore

end Xkbcommon.Xkbcomp
