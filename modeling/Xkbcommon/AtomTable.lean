import Mathlib.Algebra.Order.Group.Nat
import Mathlib.Data.List.Nodup

/-!
# The table of atoms

`src/atom.c`. Strings are interned in a hash table with linear probing: the index has the atoms at
the slots of their hashes, or at later slots if these were taken. Slot 0 is not used. The index
grows before four fifths of it are taken.

As there is always a free slot, a probe ends at the atom of the string or at a free slot
(`Xkbcommon.AtomTable.Valid.probe`), and a string has one atom forever, in whatever slots it is
(`Xkbcommon.internAll_exact`).

An allocation that fails is survived only if it is that of the string
(`Xkbcommon.atomIntern_failure`). The size of the index is doubled before its memory is, and stays
so if there is none, and the array of the strings is written to without a check.

Strings have no NUL, sizes are not bounded.
-/

namespace Xkbcommon

open List

/-! ### The code -/

/-- `struct atom_table`, without the `NULL` that is the string of `XKB_ATOM_NONE`. -/
structure AtomTable where
  /-- The slots there is memory for. -/
  index : List ℕ
  indexSize : ℕ
  strings : List (List UInt8)
  deriving DecidableEq, Repr

/-- `atom_table_new`. -/
def atomTableNew : AtomTable := ⟨replicate 4 0, 4, []⟩

/-- `atom_text`. -/
def atomText (table : AtomTable) (atom : ℕ) : Option (List UInt8) :=
  if atom = 0 then none else table.strings[atom - 1]?

/-- `hash_buf`. -/
def hashBuf (s : List UInt8) : UInt32 :=
  (range ((s.length + 1) / 2)).foldl
    (fun hash i =>
      ((hash ^^^ (s.getD i 0).toUInt32) * 0x01000193 ^^^
        (s.getD (s.length - 1 - i) 0).toUInt32) * 0x01000193)
    2166136261

/-- The slots of a probe, in order. -/
def probeSlots (size : ℕ) (s : List UInt8) : List ℕ :=
  ((range size).map fun i => ((hashBuf s).toNat + i) &&& (size - 1)).filter (· != 0)

/-- The loop that enters the strings into an index, from atom `j` on. -/
def rehash (size : ℕ) : List (List UInt8) → ℕ → List ℕ → List ℕ
  | [], _, index => index
  | s :: strings, j, index =>
    rehash size strings (j + 1)
      (match (probeSlots size s).find? (index[·]? == some 0) with
      | some slot => index.set slot j
      | none => index)

namespace AtomTable

variable (table : AtomTable) (string : List UInt8)

/-- Whether the index has to grow. -/
def isFull : Bool := decide (table.indexSize / 5 * 4 < table.strings.length + 1)

/-- The table with the larger index. -/
def grown : AtomTable :=
  { table with
    index := rehash (table.indexSize * 2) table.strings 1 (replicate (table.indexSize * 2) 0)
    indexSize := table.indexSize * 2 }

/-- Whether a probe ends at a slot, which may also be outside the memory. -/
def stopsAt (slot : ℕ) : Bool :=
  match table.index[slot]? with
  | none | some 0 => true
  | some (atom + 1) => table.strings[atom]? == some string

/-- The slot at which the probe for a string ends. -/
def probe : Option ℕ := (probeSlots table.indexSize string).find? (table.stopsAt string)

/-- The table with a string whose atom is in a slot. -/
def append (slot : ℕ) : AtomTable :=
  { table with
    index := table.index.set slot (table.strings.length + 1)
    strings := table.strings ++ [string] }

end AtomTable

/-- The allocations of `atom_intern`: the index, the copy of the string, and room in the array of
strings. -/
inductive Allocation
  | index | string | strings
  deriving DecidableEq, Repr

/-- **`atom_intern`**, in which one of the allocations may fail; `none` if the assertion fails or
memory is accessed that is not there. -/
def atomIntern (failing : Option Allocation) (table : AtomTable) (string : List UInt8)
    (add : Bool) :
    Option (ℕ × AtomTable) :=
  if table.isFull && failing == some .index then
    some (0, { table with indexSize := table.indexSize * 2 })
  else
    let table := if table.isFull then table.grown else table
    match table.probe string with
    | none => none
    | some slot =>
      match table.index[slot]? with
      | none => none
      | some 0 =>
        if !add || failing == some .string then some (0, table)
        else if failing == some .strings then none
        else some (table.strings.length + 1, table.append string slot)
      | some atom => some (atom, table)

/-- A call of `atom_intern`. -/
structure AtomCall where
  string : List UInt8
  add : Bool

/-- Calls one after the other, with the atoms that they return. -/
def internAll : AtomTable → List AtomCall → Option (List ℕ × AtomTable)
  | table, [] => some ([], table)
  | table, call :: calls =>
    match atomIntern none table call.string call.add with
    | none => none
    | some (atom, table) =>
      (internAll table calls).map fun result => (atom :: result.1, result.2)

/-! ### Tables -/

/-- **The invariant of the table.** -/
structure AtomTable.Valid (table : AtomTable) : Prop where
  pow : ∃ k, table.indexSize = 2 ^ (k + 2)
  length : table.index.length = table.indexSize
  atoms : ∀ atom ∈ table.index, atom ≤ table.strings.length
  /-- At most one slot for each string. -/
  count : table.index.countP (· != 0) ≤ table.strings.length
  load : table.strings.length ≤ table.indexSize / 5 * 4
  nodup : table.strings.Nodup
  /-- Every string is found. -/
  found : ∀ i s, table.strings[i]? = some s →
    ∃ slot, table.probe s = some slot ∧ table.index[slot]? = some (i + 1)

section Valid

variable {table : AtomTable} {s : List UInt8} {size slot : ℕ}

theorem mem_probeSlots {k : ℕ} (hsize : size = 2 ^ k) :
    slot ∈ probeSlots size s ↔ 0 < slot ∧ slot < size := by
  have hand (n : ℕ) : n &&& (size - 1) = n % size := by
    rw [hsize, Nat.and_two_pow_sub_one_eq_mod]
  have hpos : 0 < size := hsize ▸ Nat.two_pow_pos k
  simp only [probeSlots, mem_filter, mem_map, mem_range, hand, bne_iff_ne,
    ← Nat.pos_iff_ne_zero]
  constructor
  · rintro ⟨⟨i, -, rfl⟩, h⟩
    exact ⟨h, Nat.mod_lt _ hpos⟩
  · rintro ⟨h, hlt⟩
    -- the slot is reached after the distance from the hash
    generalize (hashBuf s).toNat = hash
    have hmod := Nat.mod_lt hash hpos
    rcases Nat.lt_or_ge slot (hash % size) with hlt' | hge
    · refine ⟨⟨slot + size - hash % size, by omega, ?_⟩, h⟩
      rw [← Nat.mod_add_mod, Nat.add_sub_cancel' (by omega), Nat.add_mod_right,
        Nat.mod_eq_of_lt hlt]
    · refine ⟨⟨slot - hash % size, by omega, ?_⟩, h⟩
      rw [← Nat.mod_add_mod, Nat.add_sub_cancel' hge, Nat.mod_eq_of_lt hlt]

namespace AtomTable

/-- There is a free slot. -/
theorem Valid.exists_free (h : table.Valid) (s : List UInt8) :
    ∃ slot ∈ probeSlots table.indexSize s, table.index[slot]? = some 0 := by
  obtain ⟨k, hk⟩ := h.pow
  obtain ⟨index, size, strings⟩ := table
  obtain ⟨-, hlength, -, hcount, hload, -, -⟩ := h
  dsimp only at *
  by_contra hnone
  have hsize : 4 * 2 ^ k = size := by rw [hk, Nat.pow_add, Nat.mul_comm]
  have hpos := Nat.two_pow_pos k
  cases index with
  | nil =>
    rw [length_nil] at hlength
    omega
  | cons first rest =>
    -- all slots but the first are taken
    have htaken : rest.countP (· != 0) = rest.length := by
      refine countP_eq_length.mpr fun atom hmem => bne_iff_ne.mpr fun hzero => hnone ?_
      obtain ⟨i, hi⟩ := mem_iff_getElem?.mp hmem
      have hlt := (List.getElem?_eq_some_iff.mp hi).1
      rw [length_cons] at hlength
      exact ⟨i + 1, (mem_probeSlots hk).mpr (by omega), by rw [getElem?_cons_succ, hi, hzero]⟩
    rw [countP_cons, htaken] at hcount
    rw [length_cons] at hlength
    omega

/-- A probe ends at the atom of the string, or at a free slot. -/
theorem Valid.probe_spec (h : table.Valid) (s : List UInt8) :
    ∃ slot atom, table.probe s = some slot ∧ table.index[slot]? = some atom ∧
      (atom = 0 ∧ s ∉ table.strings ∨ atom ≠ 0 ∧ table.strings[atom - 1]? = some s) := by
  by_cases hs : s ∈ table.strings
  · obtain ⟨i, hi⟩ := mem_iff_getElem?.mp hs
    obtain ⟨slot, hprobe, hslot⟩ := h.found i s hi
    exact ⟨slot, i + 1, hprobe, hslot, .inr ⟨Nat.succ_ne_zero i, hi⟩⟩
  · obtain ⟨free, hfree, hzero⟩ := h.exists_free s
    obtain ⟨slot, hprobe⟩ := Option.isSome_iff_exists.mp
      (find?_isSome.mpr
        ⟨free, hfree, show table.stopsAt s free = true by simp [stopsAt, hzero]⟩)
    obtain ⟨k, hk⟩ := h.pow
    have hlt : slot < table.index.length :=
      h.length ▸ ((mem_probeSlots hk).mp (mem_of_find?_eq_some hprobe)).2
    have hslot := getElem?_eq_getElem hlt
    have hstops := find?_some hprobe
    rw [stopsAt, hslot] at hstops
    generalize table.index[slot] = atom at *
    refine ⟨slot, atom, hprobe, hslot, .inl ⟨?_, hs⟩⟩
    cases atom with
    | zero => rfl
    | succ atom =>
      dsimp only at hstops
      exact absurd (mem_of_getElem? (eq_of_beq hstops)) hs

/-- A probe may be made with other conditions at one slot, if it would end there. -/
theorem find?_eq_of_agree {p p' : ℕ → Bool} {l : List ℕ} {stop : ℕ} (h : l.find? p = some stop)
    (hagree : ∀ x, x ≠ slot → p' x = p x) (hslot : p slot = true) (hstop : p' stop = true) :
    l.find? p' = some stop := by
  obtain ⟨-, before, after, rfl, hbefore⟩ := find?_eq_some_iff_append.mp h
  refine find?_eq_some_iff_append.mpr ⟨hstop, before, after, rfl, fun x hx => ?_⟩
  have hpass := hbefore x hx
  rw [hagree x fun heq => by simp [heq, hslot] at hpass]
  exact hpass

/-- **A string is added** at the free slot where its probe ends. -/
theorem Valid.append (h : table.Valid) (hs : s ∉ table.strings) (hprobe : table.probe s = some slot)
    (hslot : table.index[slot]? = some 0)
    (hload : table.strings.length + 1 ≤ table.indexSize / 5 * 4) :
    (table.append s slot).Valid := by
  obtain ⟨hlt, hzero⟩ := List.getElem?_eq_some_iff.mp hslot
  have hlength : (table.append s slot).strings.length = table.strings.length + 1 :=
    length_append
  have hself : (table.append s slot).index[slot]? = some (table.strings.length + 1) :=
    getElem?_set_self hlt
  have hother (x : ℕ) (hx : slot ≠ x) : (table.append s slot).index[x]? = table.index[x]? :=
    getElem?_set_ne hx
  have hfound (i : ℕ) (s' : List UInt8) (stop : ℕ) (hprobe : table.probe s' = some stop)
      (hstop : (table.append s slot).index[stop]? = some (i + 1))
      (hi : (table.append s slot).strings[i]? = some s') :
      (table.append s slot).probe s' = some stop := by
    have hstops : table.stopsAt s' slot = true := by simp [stopsAt, hslot]
    refine find?_eq_of_agree hprobe (fun x hx => ?_) hstops (by simp [stopsAt, hstop, hi])
    rw [stopsAt, stopsAt, hother x hx.symm]
    split
    · rfl
    · rfl
    · rename_i atom hatom
      rw [AtomTable.append, getElem?_append_left (h.atoms _ (mem_of_getElem? hatom))]
  refine ⟨h.pow, length_set.trans h.length, fun atom hmem => ?_, ?_, ?_, ?_, fun i s' hi => ?_⟩
  · rw [hlength]
    rcases mem_or_eq_of_mem_set hmem with hmem | rfl
    · exact Nat.le_add_right_of_le (h.atoms atom hmem)
    · exact Nat.le_refl _
  · rw [hlength, AtomTable.append, countP_set hlt, hzero]
    exact Nat.succ_le_succ h.count
  · rwa [hlength]
  · refine nodup_append.mpr ⟨h.nodup, nodup_singleton s, fun a ha b hb => ?_⟩
    rintro rfl
    exact hs (mem_singleton.mp hb ▸ ha)
  · rcases Nat.lt_or_ge i table.strings.length with hlt' | hge
    · have hi' : table.strings[i]? = some s' := by rwa [← getElem?_append_left hlt']
      obtain ⟨stop, hstop, hatom⟩ := h.found i s' hi'
      have hne : slot ≠ stop := by
        rintro rfl
        cases hslot.symm.trans hatom
      rw [← hother stop hne] at hatom
      exact ⟨stop, hfound i s' stop hstop hatom hi, hatom⟩
    · have hlast := (List.getElem?_eq_some_iff.mp hi).1
      obtain rfl : i = table.strings.length := by omega
      obtain rfl : s = s' := Option.some.inj (getElem?_concat_length.symm.trans hi)
      exact ⟨slot, hfound _ s slot hprobe hself hi, hself⟩

/-- Entering more strings into an index. -/
theorem Valid.rehash {strings : List (List UInt8)} (h : table.Valid)
    (hnodup : (table.strings ++ strings).Nodup)
    (hload : table.strings.length + strings.length ≤ table.indexSize / 5 * 4) :
    Valid { table with
      index := Xkbcommon.rehash table.indexSize strings (table.strings.length + 1) table.index
      strings := table.strings ++ strings } := by
  induction strings generalizing table with
  | nil =>
    rw [append_nil]
    exact h
  | cons s strings ih =>
    have hs : s ∉ table.strings :=
      fun hmem => disjoint_of_nodup_append hnodup hmem mem_cons_self
    obtain ⟨slot, atom, hprobe, hslot, ⟨rfl, -⟩ | ⟨-, hatom⟩⟩ := h.probe_spec s
    · -- without the string, a probe ends at the first free slot
      have hfree : (probeSlots table.indexSize s).find? (table.index[·]? == some 0) =
          some slot := by
        obtain ⟨-, before, after, heq, hbefore⟩ := find?_eq_some_iff_append.mp hprobe
        refine find?_eq_some_iff_append.mpr
          ⟨by simp [hslot], before, after, heq, fun x hx => ?_⟩
        have hpass := hbefore x hx
        simp only [stopsAt] at hpass
        split at hpass <;> simp_all
      rw [length_cons] at hload
      have hlength : (table.append s slot).strings.length = table.strings.length + 1 :=
        length_append
      have hload' : (table.append s slot).strings.length + strings.length ≤
          table.indexSize / 5 * 4 := by
        omega
      have hrest := ih (h.append hs hprobe hslot (by omega))
        (by simpa [AtomTable.append] using hnodup) hload'
      rw [hlength] at hrest
      simpa [AtomTable.append, Xkbcommon.rehash, hfree] using hrest
    · exact absurd (mem_of_getElem? hatom) hs

/-- **The larger index** has all strings. -/
theorem Valid.grown (h : table.Valid) : table.grown.Valid := by
  obtain ⟨k, hk⟩ := h.pow
  have hload := h.load
  have hempty : Valid ⟨replicate (table.indexSize * 2) 0, table.indexSize * 2, []⟩ :=
    { pow := ⟨k + 1, by rw [hk]; rfl⟩
      length := length_replicate
      atoms := fun atom hmem => Nat.le_of_eq (eq_of_mem_replicate hmem)
      count := by simp
      load := Nat.zero_le _
      nodup := nodup_nil
      found := fun i s hi => by simp at hi }
  have hgrown := hempty.rehash (show ([] ++ table.strings).Nodup from h.nodup)
    (by dsimp only [length_nil]; omega)
  simpa [AtomTable.grown] using hgrown

theorem valid_new : atomTableNew.Valid where
  pow := ⟨0, rfl⟩
  length := rfl
  atoms := by decide
  count := by decide
  load := by decide
  nodup := nodup_nil
  found i s hi := by simp [atomTableNew] at hi

/-- The table that is probed: it has the strings of the table, and room for one more. -/
theorem Valid.ready (h : table.Valid) : ∃ table', table' =
    (if table.isFull then table.grown else table) ∧ table'.Valid ∧ table'.strings = table.strings ∧
      table.strings.length + 1 ≤ table'.indexSize / 5 * 4 := by
  refine ⟨_, rfl, ?_⟩
  split <;> rename_i hfull
  · obtain ⟨k, hk⟩ := h.pow
    have hpos := Nat.two_pow_pos k
    have hload := h.load
    have hsize : table.indexSize = 4 * 2 ^ k := by rw [hk, Nat.pow_add, Nat.mul_comm]
    refine ⟨h.grown, rfl, ?_⟩
    dsimp only [AtomTable.grown]
    rcases Nat.eq_or_lt_of_le hpos with hone | hgt <;> omega
  · simp only [isFull, decide_eq_true_eq] at hfull
    exact ⟨h, rfl, by omega⟩

end AtomTable

/-- **A call without failures.** -/
theorem AtomTable.Valid.atomIntern (h : table.Valid) (s : List UInt8) (add : Bool) :
    ∃ atom table', Xkbcommon.atomIntern none table s add = some (atom, table') ∧ table'.Valid ∧
      table'.strings = (if add = true ∧ s ∉ table.strings then table.strings ++ [s]
        else table.strings) ∧
      (atom ≠ 0 ↔ s ∈ table'.strings) ∧ (atom ≠ 0 → table'.strings[atom - 1]? = some s) := by
  obtain ⟨table', htable', h', hstrings, hload⟩ := h.ready
  obtain ⟨slot, atom, hprobe, hslot, ⟨rfl, hs⟩ | ⟨hne, hatom⟩⟩ := h'.probe_spec s
  · rw [← hstrings] at hload ⊢
    cases add with
    | false =>
      refine ⟨0, table', ?_, h', by simp, by simp [hs], by simp⟩
      simp [Xkbcommon.atomIntern, ← htable', hprobe, hslot]
    | true =>
      refine ⟨table'.strings.length + 1, table'.append s slot, ?_,
        h'.append hs hprobe hslot hload, ?_⟩
      · simp [Xkbcommon.atomIntern, ← htable', hprobe, hslot]
      · simp [hs, AtomTable.append]
  · have hmem := mem_of_getElem? hatom
    refine ⟨atom, table', ?_, h', ?_, by simp [hne, hmem], fun _ => hatom⟩
    · obtain ⟨atom, rfl⟩ := Nat.exists_eq_succ_of_ne_zero hne
      simp [Xkbcommon.atomIntern, ← htable', hprobe, hslot]
    · rw [if_neg fun hadd => hadd.2 (hstrings ▸ hmem), hstrings]

end Valid

/-! ### Calls -/

/-- A string is present at a call: it is added there, or was before. -/
def Present (calls : List AtomCall) (i : ℕ) (s : List UInt8) : Prop :=
  ∃ call ∈ calls.take (i + 1), call.string = s ∧ call.add = true

theorem present_cons_succ {call : AtomCall} {calls : List AtomCall} {i : ℕ} {s : List UInt8} :
    Present (call :: calls) (i + 1) s ↔
      (call.string = s ∧ call.add = true) ∨ Present calls i s := by
  simp [Present, take_succ_cons]

/-- Every call returns the atom of its string, if it is there, in the last table. -/
theorem internAll_spec {table : AtomTable} (h : table.Valid) (calls : List AtomCall) :
    ∃ atoms table', internAll table calls = some (atoms, table') ∧ table'.Valid ∧
      table.strings <+: table'.strings ∧ atoms.length = calls.length ∧
      ∀ i call atom, calls[i]? = some call → atoms[i]? = some atom →
        (atom ≠ 0 ↔ call.string ∈ table.strings ∨ Present calls i call.string) ∧
        (atom ≠ 0 → table'.strings[atom - 1]? = some call.string) := by
  induction calls generalizing table with
  | nil => exact ⟨[], table, rfl, h, prefix_rfl, rfl, by simp⟩
  | cons first calls ih =>
    obtain ⟨atom₁, table₁, hcall, h₁, hstrings, hpresent, htext⟩ :=
      h.atomIntern first.string first.add
    obtain ⟨atoms, table', hrun, h', hpre, hlength, hcalls⟩ := ih h₁
    have hpre₁ : table.strings <+: table₁.strings := by
      rw [hstrings]
      split
      · exact prefix_append _ _
      · exact prefix_rfl
    have hmem (s : List UInt8) : s ∈ table₁.strings ↔
        s ∈ table.strings ∨ first.string = s ∧ first.add = true := by
      rw [hstrings]
      split <;> rename_i hadd
      · simp [hadd.1, eq_comm]
      · refine ⟨.inl, fun hs => hs.elim id ?_⟩
        rintro ⟨rfl, htrue⟩
        simpa [htrue] using hadd
    refine ⟨atom₁ :: atoms, table', by rw [internAll, hcall]; simp [hrun], h', hpre₁.trans hpre,
      by simp [hlength], ?_⟩
    rintro (- | i) call atom hc ha
    · obtain rfl := Option.some.inj hc
      obtain rfl := Option.some.inj ha
      refine ⟨by rw [hpresent, hmem]; simp [Present], fun hne => ?_⟩
      obtain ⟨rest, hrest⟩ := hpre
      rw [← hrest, getElem?_append_left (List.getElem?_eq_some_iff.mp (htext hne)).1]
      exact htext hne
    · rw [present_cons_succ, ← or_assoc, ← hmem]
      exact hcalls i call atom hc ha

/-- **Atoms are exact and stable**: two calls return the same atom exactly when their strings are
equal and present, and it is the atom of that string in the last table. -/
theorem internAll_exact (calls : List AtomCall) :
    ∃ atoms table, internAll atomTableNew calls = some (atoms, table) ∧
      atoms.length = calls.length ∧
      ∀ i call atom, calls[i]? = some call → atoms[i]? = some atom →
        (atom ≠ 0 → atomText table atom = some call.string) ∧
        ∀ j call' atom', calls[j]? = some call' → atoms[j]? = some atom' →
          (atom = atom' ∧ atom ≠ 0 ↔ call.string = call'.string ∧ Present calls i call.string ∧
            Present calls j call'.string) := by
  obtain ⟨atoms, table, hrun, h, -, hlength, hcalls⟩ := internAll_spec AtomTable.valid_new calls
  have hnew (s : List UInt8) : s ∉ atomTableNew.strings := not_mem_nil
  refine ⟨atoms, table, hrun, hlength, fun i call atom hc ha => ?_⟩
  obtain ⟨hpresent, htext⟩ := hcalls i call atom hc ha
  refine ⟨fun hne => by rw [atomText, if_neg hne, htext hne], fun j call' atom' hc' ha' => ?_⟩
  obtain ⟨hpresent', htext'⟩ := hcalls j call' atom' hc' ha'
  simp only [hnew, false_or] at hpresent hpresent'
  rw [← hpresent, ← hpresent']
  constructor
  · rintro ⟨rfl, hne⟩
    exact ⟨Option.some.inj ((htext hne).symm.trans (htext' hne)), hne, hne⟩
  · rintro ⟨hs, hne, hne'⟩
    -- a string is only once in the table
    obtain ⟨hlt, hget⟩ := List.getElem?_eq_some_iff.mp (htext hne)
    obtain ⟨hlt', hget'⟩ := List.getElem?_eq_some_iff.mp (htext' hne')
    have heq := h.nodup.getElem_inj_iff.mp (hget.trans (hs.trans hget'.symm))
    exact ⟨by omega, hne⟩

/-! ### Failures -/

/-- The allocations of a call: the index if it is full, and the string, if it is new, and a larger
array of strings if there are 4, 8, 16 and so on with `NULL`. -/
def AtomTable.Attempts (table : AtomTable) (s : List UInt8) (add : Bool) : Allocation → Prop
  | .index => table.isFull = true
  | .string => add = true ∧ s ∉ table.strings
  | .strings => (add = true ∧ s ∉ table.strings) ∧ ∃ k, table.strings.length + 1 = 2 ^ (k + 2)

/-- **Which failures are survived**: that of the string. -/
theorem atomIntern_failure {table : AtomTable} (h : table.Valid) {s : List UInt8} {add : Bool}
    {allocation : Allocation} (hattempts : table.Attempts s add allocation) :
    (∃ table', atomIntern (some allocation) table s add = some (0, table') ∧ table'.Valid) ↔
      allocation = .string := by
  obtain ⟨table', htable', h', hstrings, -⟩ := h.ready
  obtain ⟨slot, atom, hprobe, hslot, hatom⟩ := h'.probe_spec s
  have hfree (hs : s ∉ table.strings) : table'.index[slot]? = some 0 := by
    rw [← hstrings] at hs
    obtain ⟨rfl, -⟩ := hatom.resolve_right fun hfound => hs (mem_of_getElem? hfound.2)
    exact hslot
  cases allocation with
  | index =>
    have hfull : table.isFull = true := hattempts
    simp only [atomIntern, hfull, reduceCtorEq, iff_false]
    rintro ⟨table', hcall, hvalid⟩
    obtain rfl := (Prod.mk.inj (Option.some.inj hcall)).2
    -- the size is no longer that of the index
    obtain ⟨k, hk⟩ := h.pow
    have hpos := Nat.two_pow_pos (k + 2)
    have hlength := hvalid.length
    have hlength' := h.length
    dsimp only at hlength
    omega
  | string =>
    obtain ⟨hadd, hs⟩ := hattempts
    simp [atomIntern, ← htable', hprobe, hfree hs, hadd, h']
  | strings =>
    obtain ⟨⟨hadd, hs⟩, -⟩ := hattempts
    simp [atomIntern, ← htable', hprobe, hfree hs, hadd]

/-- There is no memory for the string. -/
theorem atomIntern_failure_string :
    ∃ table', atomIntern (some .string) atomTableNew [0x61] true = some (0, table') ∧
      table'.Valid :=
  (atomIntern_failure AtomTable.valid_new
    (show atomTableNew.Attempts [0x61] true .string from ⟨rfl, not_mem_nil⟩)).mpr rfl

/-- The index of a new table cannot be made larger. The next call reads outside of it. -/
theorem atomIntern_failure_index :
    ∃ table', atomIntern (some .index) atomTableNew [0x61] true = some (0, table') ∧
      table'.index.length = 4 ∧ table'.indexSize = 8 ∧ atomIntern none table' [0x61] true = none :=
  ⟨_, rfl, rfl, rfl, by decide⟩

end Xkbcommon
