import Xkbcommon.Xkbcomp.Keycodes

/-!
# Aliases of keys

An alias may be defined before the key that it stands for, so that only the last pass over the names
(`CopyKeycodeNameLUT`) looks at its target: an alias of a name without an entry is dropped. The pass
goes through the names in the order of their atoms and changes the table that it reads, and it takes
one step only: it does not see whether the target is an alias itself.

What the pass does is that an alias is dropped if it is *dangling*
(`Xkbcommon.Xkbcomp.KeycodeStore.Dangling`). Two aliases in a row therefore end well in one case
alone: the second one comes first, and is dropped.
-/

namespace Xkbcommon.Xkbcomp

open KeycodeStore KeycodeMatch

variable {name : AtomId} {store : KeycodeStore} {slot : KeySlot}

/-- **Aliases resolve to keys**: the target of each alias is the name of a key, and it is the key
that is found. -/
def KeyTable.AliasesResolve (table : KeyTable) : Prop :=
  ∀ alt real, table.lookupName alt = .aliasOf real →
    ∃ slot key, table.lookupName real = .key slot ∧ table.keyOf? (.key slot) = some key ∧
      key.name = real ∧ table.xkbKeyByName alt true = some key

/-! ### The pass over the names -/

/-- An alias that is dropped: its target has no entry, or it is an alias that was looked at before
and dropped. -/
inductive KeycodeStore.Dangling (store : KeycodeStore) : AtomId → Prop
  | missing {alt real : AtomId} : store.lookupName alt = .aliasOf real →
    store.lookupName real = .absent → Dangling store alt
  | dropped {alt real : AtomId} : store.lookupName alt = .aliasOf real → real < alt →
    Dangling store real → Dangling store alt

/-- No alias stands for another one, unless that one is looked at before it and dropped. -/
def KeycodeStore.DirectAliases (store : KeycodeStore) : Prop :=
  ∀ alt real real', store.lookupName alt = .aliasOf real →
    store.lookupName real = .aliasOf real' → real < alt ∧ store.Dangling real

/-- The entry of a name that is kept, with the index of its key in the keys of the keymap. -/
def KeycodeMatch.copied (numKeysLow : ℕ) : KeycodeMatch → KeycodeMatch
  | .key (.high index) => .key (.high (index + numKeysLow))
  | found => found

section Pass

variable {alt real : AtomId} {numKeysLow : ℕ}

namespace KeycodeStore

/-- An alias is dropped for one of the two reasons. -/
theorem dangling_iff (halt : store.lookupName alt = .aliasOf real) :
    store.Dangling alt ↔
      store.lookupName real = .absent ∨ real < alt ∧ store.Dangling real := by
  constructor
  · rintro (⟨halt', hreal⟩ | ⟨halt', hlt, hreal⟩)
    · obtain rfl := aliasOf.inj (halt.symm.trans halt')
      exact .inl hreal
    · obtain rfl := aliasOf.inj (halt.symm.trans halt')
      exact .inr ⟨hlt, hreal⟩
  · rintro (hreal | ⟨hlt, hreal⟩)
    · exact .missing halt hreal
    · exact .dropped halt hlt hreal

/-- Only aliases are dropped. -/
theorem Dangling.exists_aliasOf (h : store.Dangling name) :
    ∃ real, store.lookupName name = .aliasOf real := by
  rcases h with ⟨halt, -⟩ | ⟨halt, -, -⟩
  · exact ⟨_, halt⟩
  · exact ⟨_, halt⟩

open Classical in
/-- The entry of a name after the pass. -/
noncomputable def finalEntry (store : KeycodeStore) (numKeysLow : ℕ) (name : AtomId) :
    KeycodeMatch :=
  if store.Dangling name then .absent else (store.lookupName name).copied numKeysLow

theorem finalEntry_eq_absent_iff :
    store.finalEntry numKeysLow name = .absent ↔
      store.Dangling name ∨ store.lookupName name = .absent := by
  rw [finalEntry]
  split_ifs with hdangling
  · exact iff_of_true rfl (.inl hdangling)
  · rw [or_iff_right hdangling]
    rcases store.lookupName name with - | (kc | index) | real <;>
      simp [copied]

/-- An alias that the pass keeps. -/
theorem finalEntry_eq_aliasOf_iff :
    store.finalEntry numKeysLow alt = .aliasOf real ↔
      store.lookupName alt = .aliasOf real ∧ ¬store.Dangling alt := by
  rw [finalEntry]
  split_ifs with hdangling
  · simp [hdangling]
  · rw [and_iff_left hdangling]
    rcases store.lookupName alt with - | (kc | index) | real' <;> simp [copied]

/-- A key, whose index may have moved. -/
theorem finalEntry_of_key (h : store.lookupName name = .key slot) :
    store.finalEntry numKeysLow name = (KeycodeMatch.key slot).copied numKeysLow := by
  rw [finalEntry, if_neg, h]
  intro hdangling
  obtain ⟨real, halias⟩ := hdangling.exists_aliasOf
  rw [h] at halias
  exact KeycodeMatch.noConfusion halias

end KeycodeStore

/-- What the table holds when the names below `k` have been looked at. -/
def Halfway (store : KeycodeStore) (numKeysLow k : ℕ) (names : List KeycodeMatch) : Prop :=
  names.length = store.names.length ∧
  ∀ n, names.getD n .absent =
    if n < k then store.finalEntry numKeysLow n else store.lookupName n

/-- **One name is looked at.** -/
theorem Halfway.copyKeycodeName {k : ℕ} {names : List KeycodeMatch}
    (h : Halfway store numKeysLow k names) (hk : k < store.names.length) :
    Halfway store numKeysLow (k + 1) (copyKeycodeName numKeysLow names k) := by
  obtain ⟨hlength, hentry⟩ := h
  have hlt : k < names.length := hlength ▸ hk
  have hentryk : names.getD k .absent = store.lookupName k := by
    rw [hentry, if_neg (lt_irrefl k)]
  -- it is enough that the entry of the name itself becomes the final one
  have hkeep : names.getD k .absent = store.finalEntry numKeysLow k →
      Halfway store numKeysLow (k + 1) names := by
    intro hfinal
    refine ⟨hlength, fun n => ?_⟩
    rcases lt_trichotomy n k with hn | rfl | hn
    · rw [hentry, if_pos hn, if_pos (by omega)]
    · rw [hfinal, if_pos (Nat.lt_succ_self n)]
    · rw [hentry, if_neg (by omega), if_neg (by omega)]
  have hset : Halfway store numKeysLow (k + 1) (names.set k (store.finalEntry numKeysLow k)) := by
    refine ⟨(List.length_set ..).trans hlength, fun n => ?_⟩
    rw [Sparse.getD_set hlt, hentry]
    rcases lt_trichotomy n k with hn | rfl | hn
    · rw [if_neg hn.ne, if_pos hn, if_pos (by omega)]
    · rw [if_pos rfl, if_pos (Nat.lt_succ_self n)]
    · rw [if_neg hn.ne', if_neg (by omega), if_neg (by omega)]
  rw [Xkbcomp.copyKeycodeName, hentryk]
  rcases hlookup : store.lookupName k with - | (kc | index) | real
  · exact hkeep (by
      rw [hentryk, hlookup, finalEntry_eq_absent_iff.mpr (.inr hlookup)])
  · exact hkeep (by rw [hentryk, hlookup, finalEntry_of_key hlookup]; rfl)
  · rw [finalEntry_of_key hlookup] at hset
    exact hset
  · -- the entry of the target is the final one if the target comes first
    dsimp only
    have htarget : names.getD real .absent = .absent ↔ store.Dangling k := by
      rw [hentry, dangling_iff hlookup]
      split_ifs with hreal
      · rw [finalEntry_eq_absent_iff]
        simp only [hreal, true_and, or_comm]
      · simp only [hreal, false_and, or_false]
    split_ifs with hnone
    · rwa [finalEntry_eq_absent_iff.mpr (.inl (htarget.mp hnone))] at hset
    · exact hkeep (by
        rw [hentryk, hlookup,
          finalEntry_eq_aliasOf_iff.mpr ⟨hlookup, fun hd => hnone (htarget.mpr hd)⟩])

/-- **The pass over the names** leaves the final entries. -/
theorem getD_copyKeycodeNameLUT :
    (copyKeycodeNameLUT numKeysLow store.names).getD name .absent =
      store.finalEntry numKeysLow name := by
  have hpass : ∀ k ≤ store.names.length, Halfway store numKeysLow k
      ((List.range k).foldl (copyKeycodeName numKeysLow) store.names) := by
    intro k hk
    induction k with
    | zero => exact ⟨rfl, fun n => (if_neg (Nat.not_lt_zero n)).symm⟩
    | succ k ih =>
      rw [List.range_succ, List.foldl_append]
      exact (ih (Nat.le_of_succ_le hk)).copyKeycodeName hk
  obtain ⟨-, hentry⟩ := hpass store.names.length (le_refl _)
  rw [copyKeycodeNameLUT, hentry]
  split_ifs with hlt
  · rfl
  · -- a name past the end has no entry
    have habsent : store.lookupName name = .absent :=
      List.getD_eq_default _ _ (Nat.le_of_not_lt hlt)
    rw [habsent, finalEntry_eq_absent_iff.mpr (.inr habsent)]

end Pass

/-! ### Aliases after the pass -/

section Aliases

theorem lookupName_copied :
    (copyKeyNamesInfoToKeymap store).lookupName name =
      store.finalEntry (copyKeyNamesToKeymap store).numKeysLow name := getD_copyKeycodeNameLUT

/-- A key of the store is found by its name. -/
theorem exists_key_copied (h : store.Valid) (hslot : store.lookupName name = .key slot) :
    ∃ slot' key, (copyKeyNamesInfoToKeymap store).lookupName name = .key slot' ∧
      (copyKeyNamesInfoToKeymap store).keyOf? (.key slot') = some key ∧ key.name = name := by
  obtain ⟨hname, hne⟩ := h.nameAt_of_lookupName hslot
  obtain ⟨key, hkey, hkeyName⟩ := getElem?_copyKeyNamesToKeymap h (hname ▸ hne)
  rw [lookupName_copied, finalEntry_of_key hslot]
  rcases slot with kc | index
  · exact ⟨_, key, rfl, hkey, hkeyName.trans hname⟩
  · exact ⟨_, key, rfl, hkey, hkeyName.trans hname⟩

/-- For a store with its invariant. -/
theorem aliasesResolve_iff (h : store.Valid) :
    (copyKeyNamesInfoToKeymap store).AliasesResolve ↔ store.DirectAliases := by
  constructor
  · intro hresolve alt real real' halt hreal
    by_cases hdangling : store.Dangling alt
    · rcases (dangling_iff halt).mp hdangling with habsent | hdropped
      · exact absurd (hreal.symm.trans habsent) KeycodeMatch.noConfusion
      · exact hdropped
    · -- an alias that is kept has a key as its target
      obtain ⟨slot, -, hkey, -⟩ := hresolve alt real
        (lookupName_copied.trans (finalEntry_eq_aliasOf_iff.mpr ⟨halt, hdangling⟩))
      rw [lookupName_copied, finalEntry, hreal] at hkey
      split_ifs at hkey
      · exact KeycodeMatch.noConfusion hkey
  · intro hdirect alt real hkept
    obtain ⟨halt, hdangling⟩ := finalEntry_eq_aliasOf_iff.mp (lookupName_copied.symm.trans hkept)
    have hnot := mt (dangling_iff halt).mpr hdangling
    rcases hreal : store.lookupName real with - | slot | real'
    · exact absurd (.inl hreal) hnot
    · obtain ⟨slot', key, hlookup, hkey, hname⟩ := exists_key_copied h hreal
      refine ⟨slot', key, hlookup, hkey, hname, ?_⟩
      rw [KeyTable.xkbKeyByName, hkept]
      dsimp only
      rw [if_pos rfl, hlookup, hkey]
    · exact absurd (.inr (hdirect alt real real' halt hreal)) hnot

/-- **When aliases resolve to keys**, for every keycodes section. -/
theorem compiled_aliases_resolve_iff (info : KeymapInfo) (atoms : AtomTable)
    (processIncludeFile : IncludeItem → Option (List Stmt)) (file : List Stmt) :
    (copyKeyNamesInfoToKeymap
      (compileKeycodes info atoms processIncludeFile file).info.keycodes).AliasesResolve ↔
      (compileKeycodes info atoms processIncludeFile file).info.keycodes.DirectAliases :=
  aliasesResolve_iff (reachable_compileKeycodes info atoms processIncludeFile file).valid

end Aliases

/-! ### An alias of an alias -/

/-- The number of a text whose letters are the digits, from 1 on. -/
def textNumber : Atom → ℕ
  | [] => 0
  | byte :: text => textNumber text * 256 + byte.toNat + 1

theorem textNumber_injective : Function.Injective textNumber := by
  intro text
  induction text with
  | nil =>
    intro text' h
    rcases text' with - | ⟨byte', text'⟩
    · rfl
    · rw [textNumber, textNumber] at h
      omega
  | cons byte text ih =>
    intro text' h
    rcases text' with - | ⟨byte', text'⟩
    · rw [textNumber, textNumber] at h
      omega
    · rw [textNumber, textNumber] at h
      have hbyte := byte.toNat_lt
      have hbyte' := byte'.toNat_lt
      rw [ih (by omega : textNumber text = textNumber text'),
        UInt8.toNat_inj.mp (by omega : byte.toNat = byte'.toNat)]

/-- Atoms numbered by their text. -/
def numberedAtoms : AtomTable where
  intern text := textNumber text + 1
  intern_ne _ := Nat.succ_ne_zero _
  injective := (add_left_injective 1).comp textNumber_injective

/-- `alias <A> = <B>; alias <B> = <C>; <C> = 10;`. -/
def aliasChain : List Stmt :=
  [.keyAlias .default (ascii "A") (ascii "B"), .keyAlias .default (ascii "B") (ascii "C"),
    .keycode .default (ascii "C") 10]

/-- The section compiles, and `<A>` stays an alias of `<B>`, which is an alias. -/
theorem alias_of_alias_kept :
    (compileKeycodes plainInfo numberedAtoms (fun _ => none) aliasChain).Compiles ∧
    ¬(copyKeyNamesInfoToKeymap
      (compileKeycodes plainInfo numberedAtoms (fun _ => none)
        aliasChain).info.keycodes).AliasesResolve := by
  refine ⟨by decide +kernel, ?_⟩
  intro hresolve
  obtain ⟨slot, -, hkey, -⟩ := hresolve 67 68 (by decide +kernel)
  have halias : (copyKeyNamesInfoToKeymap
      (compileKeycodes plainInfo numberedAtoms (fun _ => none) aliasChain).info.keycodes).lookupName
        68 = .aliasOf 69 := by decide +kernel
  exact KeycodeMatch.noConfusion (halias.symm.trans hkey)

end Xkbcommon.Xkbcomp
