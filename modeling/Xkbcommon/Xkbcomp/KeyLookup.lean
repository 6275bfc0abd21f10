import Xkbcommon.Xkbcomp.Keycodes

/-!
# The key of a keycode

`XkbKey` finds the key of a keycode in the array that the keycodes section has set up: a low keycode
is an index, and the high ones are searched in the rest of the array. The lookup is exact, and all
it reads is within the array.

The keycode `redirect_key_auto`, which stands for “the key itself” while actions are compiled, is
one that has no key. It is the highest one that is left, and it is a high one, for there are more of
them than an array can hold.
-/

namespace Xkbcommon

open List XkbKey BinarySearch

variable {km : XkbKeymap}

/-! ### The search -/

/-- What the binary search of `XkbKey` ends with, among the high keys. -/
def highKeyResult (km : XkbKeymap) (kc : ℕ) : BinarySearch.Result :=
  BinarySearch.search (fun i => (km.keys[i]?).map XkbKey.keycode) kc km.keys.length km.numKeysLow
    km.keys.length

/-- The search of `XkbKey` is a binary search. -/
theorem searchHighKey_eq_search (keys : List XkbKey) {kc : ℕ} (fuel lower upper : ℕ) :
    searchHighKey keys kc fuel lower upper =
      (search (fun i => (keys[i]?).map keycode) kc fuel lower upper).index? := by
  induction fuel generalizing lower upper with
  | zero => rfl
  | succ fuel ih =>
    rw [searchHighKey, search]
    split_ifs
    · dsimp only
      rcases keys[lower + (upper - 1 - lower) / 2]? with - | key
      · rfl
      · simp only [Option.map_some]
        split_ifs
        · exact ih _ _
        · exact ih _ _
        · rfl
    · rfl

/-- The reads of `XkbKey` are within the keys: that of a low keycode, and those of the search. -/
structure ReadsInBounds (km : XkbKeymap) (kc : ℕ) : Prop where
  low : km.minKeyCode ≤ kc → kc ≤ km.maxKeyCode → kc < km.numKeysLow → kc < km.keys.length
  high : highKeyResult km kc ≠ .outOfRange

namespace Xkbcomp

variable {store : KeycodeStore} {kc minKeyCode numKeysLow : ℕ}

/-! ### The layout of the keys -/

/-- A keycode that has a key: one of the low range, which starts with the minimum, or a high one. -/
def HasKey (store : KeycodeStore) (kc : ℕ) : Prop :=
  ((copyKeyNamesInfoToKeymap store).minKeyCode ≤ kc ∧
    kc < (copyKeyNamesInfoToKeymap store).numKeysLow) ∨
  ∃ entry ∈ store.high, entry.keycode = kc

/-- What is known of the keymap of a store. -/
structure Layout (store : KeycodeStore) (km : XkbKeymap) : Prop where
  length_eq : km.keys.length = km.numKeysLow + store.high.length
  numKeysLow_le : km.numKeysLow ≤ xkbKeycodeMaxContiguous + 1
  /-- The high keys are those of the store. -/
  high_keycode : ∀ i, (km.keys[km.numKeysLow + i]?).map XkbKey.keycode = store.highKeycode i
  le_max : ∀ kc, (kc < km.numKeysLow ∨ ∃ entry ∈ store.high, entry.keycode = kc) →
    kc ≤ km.maxKeyCode
  min_le : ∀ entry ∈ store.high, km.minKeyCode ≤ entry.keycode

theorem length_lowKeys : (lowKeys store minKeyCode numKeysLow).length = numKeysLow := by
  rw [lowKeys, length_map, length_range]

theorem length_highKeys : (highKeys store).length = store.high.length := length_map ..

/-- The high keys follow the low ones. -/
theorem getElem?_keys_high (i : ℕ) :
    (((lowKeys store minKeyCode numKeysLow ++ highKeys store).map
      fun key => ({ keycode := key.keycode } : XkbKey))[numKeysLow + i]?).map keycode =
      store.highKeycode i := by
  rw [getElem?_map, getElem?_append_right (by rw [length_lowKeys]; omega),
    length_lowKeys, Nat.add_sub_cancel_left, highKeys, getElem?_map, Option.map_map, Option.map_map]
  rfl

/-- **The keymap of a store** has the layout that `XkbKey` relies on. -/
theorem layout_toKeymap (h : store.Valid) :
    Layout store (copyKeyNamesInfoToKeymap store).toKeymap := by
  rw [copyKeyNamesInfoToKeymap, copyKeyNamesToKeymap]
  split_ifs with hempty
  · obtain ⟨-, hhigh⟩ := Bool.and_eq_true _ _ ▸ hempty
    rw [List.isEmpty_iff] at hhigh
    refine ⟨?_, (by decide : 256 ≤ xkbKeycodeMaxContiguous + 1), getElem?_keys_high, ?_, ?_⟩
    · rw [KeyTable.toKeymap, length_map, length_append, length_lowKeys, length_highKeys]
    · rintro kc (hkc | ⟨entry, hentry, -⟩)
      · exact Nat.le_of_lt_succ hkc
      · exact absurd (hhigh ▸ hentry) not_mem_nil
    · exact fun entry hentry => absurd (hhigh ▸ hentry) not_mem_nil
  · refine ⟨?_, h.low_le, getElem?_keys_high, ?_, ?_⟩
    · rw [KeyTable.toKeymap, length_map, length_append, length_lowKeys, length_highKeys]
    · intro kc hkc
      dsimp only [KeyTable.toKeymap] at hkc ⊢
      split
      · rename_i hlast
        rcases hkc with hkc | ⟨entry, hentry, -⟩
        · exact Nat.le_sub_one_of_lt hkc
        · rw [getLast?_eq_none_iff.mp hlast] at hentry
          exact absurd hentry not_mem_nil
      · rename_i last hlast
        rcases hkc with hkc | ⟨entry, hentry, rfl⟩
        · have hgt := h.high_gt last (mem_of_getLast? hlast)
          have hle := h.low_le
          omega
        · exact h.le_last hlast hentry
    · intro entry hentry
      exact h.isMin.le (.inr ⟨entry, hentry, rfl⟩)

/-- The high keys are what a binary search needs. -/
theorem Layout.increasing (hlayout : Layout store km) (h : store.Valid) :
    BinarySearch.Increasing (fun i => (km.keys[i]?).map keycode) km.numKeysLow km.keys.length := by
  have hread : ∀ i, km.numKeysLow ≤ i →
      (km.keys[i]?).map keycode = store.highKeycode (i - km.numKeysLow) := by
    intro i hi
    rw [← hlayout.high_keycode, Nat.add_sub_cancel' hi]
  have hlength := hlayout.length_eq
  constructor
  · intro i hi hi'
    obtain ⟨y, hy⟩ := h.increasing.readable (i - km.numKeysLow) (Nat.zero_le _) (by omega)
    exact ⟨y, (hread i hi).trans hy⟩
  · intro i j y z hi hij hj hy hz
    rw [hread i hi] at hy
    rw [hread j (by omega)] at hz
    exact h.increasing.lt _ _ y z (Nat.zero_le _) (by omega) (by omega) hy hz

/-! ### Exact lookup -/

/-- **A high keycode** is found at its place, any other keycode past the low ones is missing. -/
theorem Layout.highKeyResult (hlayout : Layout store km) (h : store.Valid) (kc : ℕ) :
    (∃ i, Xkbcommon.highKeyResult km kc = .found i ∧
      (km.keys[i]?).map keycode = some kc ∧ ∃ entry ∈ store.high, entry.keycode = kc) ∨
    ((∃ i, Xkbcommon.highKeyResult km kc = .missing i) ∧
      ¬∃ entry ∈ store.high, entry.keycode = kc) := by
  have hlength := hlayout.length_eq
  have hinc := hlayout.increasing h
  by_cases hkc : ∃ entry ∈ store.high, entry.keycode = kc
  · obtain ⟨entry, hentry, rfl⟩ := hkc
    obtain ⟨i, hi⟩ := getElem?_of_mem hentry
    have hlt := (List.getElem?_eq_some_iff.mp hi).1
    have hread : (km.keys[km.numKeysLow + i]?).map keycode = some entry.keycode := by
      rw [hlayout.high_keycode, KeycodeStore.highKeycode, hi]
      rfl
    exact .inl ⟨km.numKeysLow + i,
      search_of_read hinc (Nat.sub_le _ _) (Nat.le_add_right _ _) (by omega) hread,
      hread, entry, hentry, rfl⟩
  · refine .inr ⟨?_, hkc⟩
    obtain ⟨i, hmissing, -⟩ := search_of_forall_ne (x := kc) hinc (by omega) (Nat.sub_le _ _) (by
        intro i hi _ hread
        rw [← Nat.add_sub_cancel' hi, hlayout.high_keycode] at hread
        obtain ⟨entry, hentry, hkeycode⟩ := Option.map_eq_some_iff.mp hread
        exact hkc ⟨entry, mem_of_getElem? hentry, hkeycode⟩)
    exact ⟨i, hmissing⟩

/-- **The lookup is exact**, for a keymap with the layout of a store. -/
theorem Layout.xkbKey (hlayout : Layout store km) (h : store.Valid) (kc : ℕ) :
    ((km.minKeyCode ≤ kc ∧ kc < km.numKeysLow) ∨ (∃ entry ∈ store.high, entry.keycode = kc) →
      ∃ i key, Xkbcommon.xkbKey km kc = some i ∧ km.keys[i]? = some key ∧ key.keycode = kc) ∧
    (¬((km.minKeyCode ≤ kc ∧ kc < km.numKeysLow) ∨ ∃ entry ∈ store.high, entry.keycode = kc) →
      Xkbcommon.xkbKey km kc = none) := by
  have hlow := hlayout.numKeysLow_le
  constructor
  · rintro (⟨hmin, hlt⟩ | hhigh)
    · have hmax := hlayout.le_max kc (.inl hlt)
      obtain ⟨key, hkey, hkeycode⟩ := Option.map_eq_some_iff.mp (km.low_keycode kc hlt hmin)
      refine ⟨kc, key, ?_, hkey, hkeycode⟩
      rw [Xkbcommon.xkbKey, if_neg (by omega), if_pos hlt]
    · have hmax := hlayout.le_max kc (.inr hhigh)
      obtain ⟨entry, hentry, rfl⟩ := hhigh
      have hmin := hlayout.min_le entry hentry
      have hgt := h.high_gt entry hentry
      rcases hlayout.highKeyResult h entry.keycode with ⟨i, hfound, hread, -⟩ | ⟨-, hnone⟩
      · obtain ⟨key, hkey, hkeycode⟩ := Option.map_eq_some_iff.mp hread
        refine ⟨i, key, ?_, hkey, hkeycode⟩
        rw [Xkbcommon.xkbKey, if_neg (by omega), if_neg (by omega), searchHighKey_eq_search]
        exact congrArg BinarySearch.Result.index? hfound
      · exact absurd ⟨entry, hentry, rfl⟩ hnone
  · intro hnone
    obtain ⟨hnotLow, hnotHigh⟩ := not_or.mp hnone
    rw [Xkbcommon.xkbKey]
    split_ifs with hrange hlt
    · rfl
    · exact absurd ⟨by omega, hlt⟩ hnotLow
    · rcases hlayout.highKeyResult h kc with ⟨-, -, -, hhigh⟩ | ⟨⟨i, hmissing⟩, -⟩
      · exact absurd hhigh hnotHigh
      · rw [searchHighKey_eq_search]
        exact congrArg BinarySearch.Result.index? hmissing

/-! ### A keycode without a key -/

/-- **The keycode that is chosen**: it is none of the keycodes, which go down from the first
candidate at most, and it is as high as their number allows. -/
theorem undefinedKeycode_spec {kcs : List ℕ} {keycode : ℕ} (hdesc : kcs.Pairwise (· > ·))
    (hpos : ∀ kc ∈ kcs, 0 < kc) (hle : ∀ kc ∈ kcs, kc ≤ keycode) :
    KeyTable.undefinedKeycode kcs keycode ∉ kcs ∧
    KeyTable.undefinedKeycode kcs keycode ≤ keycode ∧
    keycode ≤ KeyTable.undefinedKeycode kcs keycode + kcs.length := by
  induction kcs generalizing keycode with
  | nil => exact ⟨not_mem_nil, le_refl _, le_refl _⟩
  | cons kc kcs ih =>
    obtain ⟨hgt, hdesc⟩ := pairwise_cons.mp hdesc
    have hkc := hle kc mem_cons_self
    have hkcPos := hpos kc mem_cons_self
    rw [KeyTable.undefinedKeycode, length_cons]
    split_ifs with hlt
    · refine ⟨?_, le_refl _, by omega⟩
      intro hmem
      rcases mem_cons.mp hmem with rfl | hmem
      · exact lt_irrefl _ hlt
      · have := hgt _ hmem
        omega
    · -- the keycode is taken, the next candidate is the one below it
      have hbelow : ∀ kc' ∈ kcs, kc' ≤ kc - 1 := fun kc' hmem => Nat.le_sub_one_of_lt (hgt kc' hmem)
      obtain ⟨hnotMem, hle', habove⟩ := ih hdesc (fun kc' hmem => hpos kc' (.tail _ hmem)) hbelow
      refine ⟨?_, by omega, by omega⟩
      intro hmem
      rcases mem_cons.mp hmem with heq | hmem
      · omega
      · exact hnotMem hmem

/-- The keycodes of the high keys, from the last one on. -/
theorem map_keycode_drop :
    ((lowKeys store minKeyCode numKeysLow ++ highKeys store).drop numKeysLow).reverse.map
      NamedKey.keycode = (store.high.map (·.keycode)).reverse := by
  rw [drop_append_of_le_length (by rw [length_lowKeys]), map_reverse]
  congr 1
  rw [drop_eq_nil_of_le (by rw [length_lowKeys]), nil_append, highKeys, map_map]
  rfl

/-- **The keycode for “the key itself” has no key**, if not all high keycodes have one. -/
theorem not_hasKey_redirectKeyAuto (h : store.Valid)
    (hroom : store.high.length < xkbKeycodeMax - xkbKeycodeMaxContiguous) :
    ¬HasKey store (copyKeyNamesInfoToKeymap store).redirectKeyAuto := by
  -- no high keycode is 0, and 0 is not a low one if it is below the minimum
  have hzero : 0 < (copyKeyNamesInfoToKeymap store).minKeyCode → ¬HasKey store 0 := by
    rintro hmin (⟨hle, -⟩ | ⟨entry, hentry, heq⟩)
    · omega
    · have := h.high_gt entry hentry
      omega
  by_cases hempty : store.low = [] ∧ store.high = []
  · have hmin : 0 < (copyKeyNamesInfoToKeymap store).minKeyCode := by
      rw [copyKeyNamesInfoToKeymap, copyKeyNamesToKeymap, if_pos (by simp [hempty])]
      exact Nat.zero_lt_succ 7
    rw [KeyTable.redirectKeyAuto, if_pos (.inr hmin)]
    exact hzero hmin
  obtain ⟨hlow, -, hkeys⟩ := copyKeyNamesToKeymap_of_nonempty (not_and_or.mp hempty)
  rw [KeyTable.redirectKeyAuto]
  split_ifs with hauto
  · refine hzero (hauto.resolve_left ?_)
    rw [List.isEmpty_iff]
    intro hnil
    have hlength := congrArg List.length (hkeys.symm.trans hnil)
    rw [length_append, length_lowKeys, length_highKeys, length_nil] at hlength
    exact hempty ⟨eq_nil_of_length_eq_zero (by omega), eq_nil_of_length_eq_zero (by omega)⟩
  · have hcandidates : ((copyKeyNamesInfoToKeymap store).keys.drop
        (copyKeyNamesInfoToKeymap store).numKeysLow).reverse.map NamedKey.keycode =
        (store.high.map (·.keycode)).reverse := by
      show ((copyKeyNamesToKeymap store).keys.drop
        (copyKeyNamesToKeymap store).numKeysLow).reverse.map NamedKey.keycode = _
      rw [hkeys, hlow, map_keycode_drop]
    rw [hcandidates]
    have hmem : ∀ kc ∈ (store.high.map (·.keycode)).reverse,
        xkbKeycodeMaxContiguous < kc ∧ kc ≤ xkbKeycodeMax := by
      intro kc hkc
      obtain ⟨entry, hentry, rfl⟩ := mem_map.mp (mem_reverse.mp hkc)
      exact ⟨h.high_gt entry hentry, h.high_le entry hentry⟩
    obtain ⟨hnotMem, -, habove⟩ := @undefinedKeycode_spec (store.high.map (·.keycode)).reverse
      (xkbKeycodeInvalid - 1) (pairwise_reverse.mpr (pairwise_map.mpr h.high_lt))
      (fun kc hkc => Nat.zero_lt_of_lt (hmem kc hkc).1) (fun kc hkc => (hmem kc hkc).2)
    rintro (⟨-, hlt⟩ | ⟨entry, hentry, heq⟩)
    · -- the candidate is above the low range
      have hle : (copyKeyNamesInfoToKeymap store).numKeysLow ≤ xkbKeycodeMaxContiguous + 1 :=
        (layout_toKeymap h).numKeysLow_le
      have hinvalid : xkbKeycodeInvalid = 0xffffffff := rfl
      rw [length_reverse, length_map] at habove
      rw [xkbKeycodeMax, xkbKeycodeMaxContiguous] at hroom
      rw [xkbKeycodeMaxContiguous] at hle
      omega
    · exact hnotMem (mem_reverse.mpr (heq ▸ mem_map_of_mem hentry))

/-- **Exact lookup**, for the keymap of a store: what `XkbKey` returns for each keycode, that all
its reads are within the keys, whose number is one of 32 bits, and that `redirect_key_auto` has
no key. -/
structure ExactLookup (store : KeycodeStore) (km : XkbKeymap) (redirectKeyAuto : ℕ) : Prop where
  found : ∀ kc < 2 ^ 32, HasKey store kc →
    ∃ i key, xkbKey km kc = some i ∧ km.keys[i]? = some key ∧ key.keycode = kc
  null : ∀ kc < 2 ^ 32, ¬HasKey store kc → xkbKey km kc = none
  inBounds : ∀ kc < 2 ^ 32, ReadsInBounds km kc
  length_lt : km.keys.length < 2 ^ 32
  auto : ¬HasKey store redirectKeyAuto ∧ xkbKey km redirectKeyAuto = none

/-- **`XkbKey` is exact** for every keymap that comes from a store with its invariant. Some high
keycode has no key: an array holds at most `2 ^ 28` entries of the size of a high keycode. -/
theorem copied_lookup_exact (h : store.Valid)
    (hroom : store.high.length < xkbKeycodeMax - xkbKeycodeMaxContiguous) :
    ExactLookup store (copyKeyNamesInfoToKeymap store).toKeymap
      (copyKeyNamesInfoToKeymap store).redirectKeyAuto := by
  have hlayout := layout_toKeymap h
  have hlength := hlayout.length_eq
  have hauto := not_hasKey_redirectKeyAuto h hroom
  refine ⟨fun kc _ => (hlayout.xkbKey h kc).1, fun kc _ => (hlayout.xkbKey h kc).2, ?_, ?_,
    hauto, (hlayout.xkbKey h _).2 hauto⟩
  · intro kc _
    refine ⟨fun _ _ hlt => by omega, ?_⟩
    intro hout
    rcases hlayout.highKeyResult h kc with ⟨i, hfound, -⟩ | ⟨⟨i, hmissing⟩, -⟩
    · exact BinarySearch.Result.noConfusion (hout.symm.trans hfound)
    · exact BinarySearch.Result.noConfusion (hout.symm.trans hmissing)
  · have hle := hlayout.numKeysLow_le
    rw [xkbKeycodeMax, xkbKeycodeMaxContiguous] at hroom
    rw [xkbKeycodeMaxContiguous] at hle
    omega

/-- The lowest and the highest keycodes have keys. -/
theorem copied_lookup_exact_bounds :
    ExactLookup ((({} : KeycodeStore).addKeyName 0 1 .override).addKeyName 0xfffffffe 2 .override)
      (copyKeyNamesInfoToKeymap ((({} : KeycodeStore).addKeyName 0 1 .override).addKeyName
        0xfffffffe 2 .override)).toKeymap 0xfffffffd :=
  copied_lookup_exact
    (KeycodeStore.Reachable.key .override (.key .override .init (by decide) (by decide))
      (by decide) (by decide)).valid (by decide)

end Xkbcomp

end Xkbcommon
