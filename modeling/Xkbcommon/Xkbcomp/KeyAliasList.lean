import Xkbcommon.Lib.Splice
import Xkbcommon.Xkbcomp.KeycodeStore

/-!
# The list of key aliases

Once the keymap is compiled, the table of the key names is only needed for the aliases, and
`UpdateDerivedKeymapFields` makes a list of them. It tries to do so within the table: an alias takes
two slots of it, so that the list goes before the first alias, or after the last one, whence it is
moved to the front, or into an array of its own.

The memory of the table is a list of slots. A slot that is written does not hold an entry any more,
so that the model tells whether something is read after it was overwritten; it also tells of a write
to an alias that is still to be read, of a write outside of the array, and of a copy between ranges
that overlap, for which the behaviour of `memcpy` is undefined.
-/

namespace Xkbcommon.Xkbcomp

open List Splice

/-! ### The table and its slots -/

/-- A slot of the memory of the table: an entry, or one half of `struct xkb_key_alias`. -/
inductive NameCell
  | entry (found : KeycodeMatch)
  | real (name : AtomId)
  | alt (name : AtomId)
  deriving DecidableEq, Repr

variable {cells : List NameCell}

/-- What must not happen. -/
inductive AliasFault
  /-- An access outside of the array. -/
  | outOfRange
  /-- A read of a slot that was overwritten. -/
  | overwritten
  /-- A write to an alias that was not read yet. -/
  | unread
  /-- A copy between ranges that overlap. -/
  | overlap
  deriving DecidableEq, Repr

/-- The number of aliases, the first and the last one. -/
structure AliasRange where
  num : ℕ := 0
  min : ℕ := 0
  max : ℕ := 0
  deriving DecidableEq, Repr

/-- The loop that counts the aliases. -/
def scanAliases (names : List KeycodeMatch) : AliasRange :=
  (List.range names.length).foldl
    (fun range alt =>
      match names.getD alt .absent with
      | .aliasOf _ =>
        { num := range.num + 1, min := if range.num = 0 then alt else range.min, max := alt }
      | _ => range)
    {}

/-- An alias in a slot, which is not read yet. -/
def unreadAlias (cells : List NameCell) (alt i : ℕ) : Bool :=
  match cells[i]? with
  | some (.entry (.aliasOf _)) => decide (alt < i)
  | _ => false

/-- The body of the loop of `add_key_aliases`: an alias is read, and written to two slots. -/
def addKeyAlias (state : List NameCell × ℕ) (alt : ℕ) : Except AliasFault (List NameCell × ℕ) :=
  let (cells, dst) := state
  match cells[alt]? with
  | none => .error .outOfRange
  | some (.entry (.aliasOf real)) =>
    if cells.length ≤ dst + 1 then .error .outOfRange
    else if unreadAlias cells alt dst || unreadAlias cells alt (dst + 1) then .error .unread
    else .ok ((cells.set dst (.real real)).set (dst + 1) (.alt alt), dst + 2)
  | some (.entry _) => .ok (cells, dst)
  | some _ => .error .overwritten

/-- `add_key_aliases`. -/
def addKeyAliases (cells : List NameCell) (range : AliasRange) (dst : ℕ) :
    Except AliasFault (List NameCell) := do
  let (cells, _) ← (List.range' range.min (range.max + 1 - range.min)).foldlM addKeyAlias
    (cells, dst)
  return cells

/-- `memcpy` to the start of the array. -/
def moveToStart (cells : List NameCell) (src size : ℕ) : Except AliasFault (List NameCell) :=
  if src < size then .error .overlap
  else if cells.length < src + size then .error .outOfRange
  else .ok (Splice.overwrite cells 0 ((cells.drop src).take size))

/-- The array of `struct xkb_key_alias` in slots. -/
def readAliases : List NameCell → Except AliasFault (List (AtomId × AtomId))
  | [] => .ok []
  | .real real :: .alt alt :: cells => do return (alt, real) :: (← readAliases cells)
  | _ => .error .overwritten

/-- The first part of `UpdateDerivedKeymapFields`: the list of the aliases with their targets. The
table is aligned for a pair of slots, so that an index is if it is even. A new array is a range of
its own, here behind the table. -/
def updateKeyAliases (names : List KeycodeMatch) : Except AliasFault (List (AtomId × AtomId)) := do
  let range := scanAliases names
  let requiredSpace := 2 * range.num
  let cells := names.map NameCell.entry
  if range.num = 0 then return []
  else if requiredSpace ≤ range.min then
    let cells ← addKeyAliases cells range 0
    readAliases (cells.take requiredSpace)
  else if requiredSpace < names.length - range.max - 1 then
    let first := range.max + 1 + (range.max + 1) % 2
    let cells ← addKeyAliases cells range first
    let cells ← moveToStart cells first requiredSpace
    readAliases (cells.take requiredSpace)
  else
    let cells := cells ++ List.replicate requiredSpace (.entry .absent)
    let cells ← addKeyAliases cells range names.length
    readAliases ((cells.drop names.length).take requiredSpace)

/-! ### The aliases of a table -/

/-- A list of the aliases of a table: exactly these, by increasing name. -/
structure ListsAliases (names : List KeycodeMatch) (aliases : List (AtomId × AtomId)) : Prop where
  mem_iff : ∀ alt real, (alt, real) ∈ aliases ↔ names.getD alt .absent = .aliasOf real
  increasing : aliases.Pairwise fun entry later => entry.1 < later.1

variable {names : List KeycodeMatch} {alt real : AtomId} {alts : List AtomId}
  {aliases : List (AtomId × AtomId)}

theorem aliasesIn_append (alts' : List AtomId) :
    aliasesIn names (alts ++ alts') = aliasesIn names alts ++ aliasesIn names alts' :=
  filterMap_append

theorem aliasesIn_cons_of_aliasOf (h : names.getD alt .absent = .aliasOf real) :
    aliasesIn names (alt :: alts) = (alt, real) :: aliasesIn names alts := by
  rw [aliasesIn, filterMap_cons, h]
  rfl

theorem aliasesIn_cons_of_ne (h : ∀ real, names.getD alt .absent ≠ .aliasOf real) :
    aliasesIn names (alt :: alts) = aliasesIn names alts := by
  rw [aliasesIn, filterMap_cons]
  rcases hfound : names.getD alt .absent with - | slot | real
  · rfl
  · rfl
  · exact absurd hfound (h real)

theorem mem_aliasesIn :
    (alt, real) ∈ aliasesIn names alts ↔ alt ∈ alts ∧ names.getD alt .absent = .aliasOf real := by
  induction alts with
  | nil => simp [aliasesIn]
  | cons alt' alts ih =>
    by_cases halias : ∃ real', names.getD alt' .absent = .aliasOf real'
    · obtain ⟨real', hreal'⟩ := halias
      rw [aliasesIn_cons_of_aliasOf hreal', mem_cons, ih, mem_cons, Prod.mk.injEq]
      constructor
      · rintro (⟨rfl, rfl⟩ | ⟨hmem, hentry⟩)
        · exact ⟨.inl rfl, hreal'⟩
        · exact ⟨.inr hmem, hentry⟩
      · rintro ⟨rfl | hmem, hentry⟩
        · exact .inl ⟨rfl, KeycodeMatch.aliasOf.inj (hentry.symm.trans hreal')⟩
        · exact .inr ⟨hmem, hentry⟩
    · rw [aliasesIn_cons_of_ne (not_exists.mp halias), ih, mem_cons]
      constructor
      · exact fun h => ⟨.inr h.1, h.2⟩
      · rintro ⟨rfl | hmem, hentry⟩
        · exact absurd ⟨real, hentry⟩ halias
        · exact ⟨hmem, hentry⟩

theorem aliasesIn_eq_nil (h : ∀ alt ∈ alts, ∀ real, names.getD alt .absent ≠ .aliasOf real) :
    aliasesIn names alts = [] :=
  eq_nil_iff_forall_not_mem.mpr fun entry hentry =>
    h entry.1 (mem_aliasesIn.mp hentry).1 entry.2 (mem_aliasesIn.mp hentry).2

/-- **The aliases of a table** are listed by increasing name. -/
theorem listsAliases_allAliases (names : List KeycodeMatch) :
    ListsAliases names (allAliases names) := by
  constructor
  · intro alt real
    rw [allAliases, mem_aliasesIn, mem_range, and_iff_right_iff_imp]
    intro hentry
    refine Sparse.lt_length_of_getD_ne (d := .absent) ?_
    rw [hentry]
    exact KeycodeMatch.noConfusion
  · refine List.Pairwise.filterMap _ ?_ pairwise_lt_range
    intro alt alt' hlt entry hentry entry' hentry'
    have hfst : ∀ (alt : AtomId) (entry : AtomId × AtomId),
        (match names.getD alt .absent with
          | .aliasOf real => some (alt, real)
          | _ => none) = some entry → entry.1 = alt := by
      intro alt entry h
      rcases hfound : names.getD alt .absent with - | slot | real <;> rw [hfound] at h
      · cases h
      · cases h
      · rw [← Option.some.inj h]
    rw [hfst alt entry hentry, hfst alt' entry' hentry']
    exact hlt

/-! ### The range of the aliases -/

/-- The aliases among the first names, as the loop counts them. -/
def rangeOf (aliases : List (AtomId × AtomId)) : AliasRange where
  num := aliases.length
  min := ((aliases.head?).map Prod.fst).getD 0
  max := ((aliases.getLast?).map Prod.fst).getD 0

/-- One more alias. -/
theorem rangeOf_concat :
    rangeOf (aliases ++ [(alt, real)]) =
      { num := (rangeOf aliases).num + 1
        min := if (rangeOf aliases).num = 0 then alt else (rangeOf aliases).min
        max := alt } := by
  rw [rangeOf, getLast?_concat]
  rcases aliases with - | ⟨first, aliases⟩
  · rfl
  · simp [rangeOf]

/-- **The loop counts the aliases** and finds the first and the last one. -/
theorem scanAliases_eq : scanAliases names = rangeOf (allAliases names) := by
  rw [scanAliases, allAliases]
  induction names.length with
  | zero => rfl
  | succ k ih =>
    rw [range_succ, foldl_append, ih, aliasesIn_append, foldl_cons, foldl_nil]
    by_cases halias : ∃ real, names.getD k .absent = .aliasOf real
    · obtain ⟨real, hreal⟩ := halias
      rw [aliasesIn_cons_of_aliasOf hreal, hreal]
      exact rangeOf_concat.symm
    · rw [aliasesIn_cons_of_ne (not_exists.mp halias)]
      split
      · exact absurd ⟨_, ‹_›⟩ halias
      · exact congrArg rangeOf (append_nil _).symm

/-- The first and the last alias bound all of them. -/
theorem rangeOf_bounds (h : ListsAliases names aliases) {entry : AtomId × AtomId}
    (hentry : entry ∈ aliases) :
    (rangeOf aliases).min ≤ entry.1 ∧ entry.1 ≤ (rangeOf aliases).max := by
  constructor
  · rcases aliases with - | ⟨first, aliases⟩
    · exact absurd hentry not_mem_nil
    · show first.1 ≤ entry.1
      rcases mem_cons.mp hentry with rfl | hentry
      · exact le_refl _
      · exact ((pairwise_cons.mp h.increasing).1 entry hentry).le
  · obtain ⟨init, last, rfl⟩ : ∃ init last, aliases = init ++ [last] :=
      ⟨_, _, (dropLast_append_getLast (ne_nil_of_mem hentry)).symm⟩
    rw [rangeOf_concat]
    rcases mem_append.mp hentry with hentry | hentry
    · exact ((pairwise_append.mp h.increasing).2.2 entry hentry last (mem_singleton_self last)).le
    · rw [mem_singleton.mp hentry]

/-- The last alias is a name of the table. -/
theorem max_lt_length (h : ListsAliases names aliases) (hne : aliases ≠ []) :
    (rangeOf aliases).max < names.length := by
  obtain ⟨init, ⟨alt, real⟩, rfl⟩ : ∃ init last, aliases = init ++ [last] :=
    ⟨_, _, (dropLast_append_getLast hne).symm⟩
  rw [rangeOf_concat]
  have hentry := (h.mem_iff alt real).mp (mem_append_right _ (mem_singleton_self _))
  refine Sparse.lt_length_of_getD_ne (d := .absent) ?_
  rw [hentry]
  exact KeycodeMatch.noConfusion

/-- All aliases are between the first and the last one. -/
theorem aliasesIn_range (hne : allAliases names ≠ []) :
    aliasesIn names (range' (rangeOf (allAliases names)).min
      ((rangeOf (allAliases names)).max + 1 - (rangeOf (allAliases names)).min)) =
      allAliases names := by
  have hlists := listsAliases_allAliases names
  have hlt := max_lt_length hlists hne
  generalize hrange : rangeOf (allAliases names) = range at hlt ⊢
  have hbounds : ∀ alt real, names.getD alt .absent = .aliasOf real →
      range.min ≤ alt ∧ alt ≤ range.max := by
    intro alt real hentry
    rw [← hrange]
    exact rangeOf_bounds hlists ((hlists.mem_iff alt real).mpr hentry)
  have hle : range.min ≤ range.max := by
    obtain ⟨⟨alt, real⟩, hentry⟩ := exists_mem_of_ne_nil _ hne
    obtain ⟨hmin, hmax⟩ := hbounds alt real ((hlists.mem_iff alt real).mp hentry)
    exact hmin.trans hmax
  have hsplit : List.range names.length = range' 0 range.min ++
      (range' range.min (range.max + 1 - range.min) ++
        range' (range.max + 1) (names.length - (range.max + 1))) := by
    have hlength : names.length = range.min + ((range.max + 1 - range.min) +
        (names.length - (range.max + 1))) := by omega
    have hmax : range.min + (range.max + 1 - range.min) = range.max + 1 := by omega
    rw [range_eq_range', hlength, ← range'_append_1, ← range'_append_1, zero_add, hmax, ← hlength]
  rw [allAliases, hsplit, aliasesIn_append, aliasesIn_append]
  have hbefore : aliasesIn names (range' 0 range.min) = [] := by
    refine aliasesIn_eq_nil fun alt halt real hentry => ?_
    have := mem_range'_1.mp halt
    have := hbounds alt real hentry
    omega
  have hafter : aliasesIn names (range' (range.max + 1) (names.length - (range.max + 1))) = [] := by
    refine aliasesIn_eq_nil fun alt halt real hentry => ?_
    have := mem_range'_1.mp halt
    have := hbounds alt real hentry
    omega
  rw [hbefore, hafter, nil_append, append_nil]

/-! ### The loop that writes the aliases -/

/-- The slots of a list of aliases. -/
def aliasWords (aliases : List (AtomId × AtomId)) : List NameCell :=
  aliases.flatMap fun entry => [.real entry.2, .alt entry.1]

theorem length_aliasWords (aliases : List (AtomId × AtomId)) :
    (aliasWords aliases).length = 2 * aliases.length := by
  induction aliases with
  | nil => rfl
  | cons entry aliases ih =>
    simp only [aliasWords, flatMap_cons, length_append, length_cons, length_nil] at ih ⊢
    omega

theorem readAliases_aliasWords : readAliases (aliasWords aliases) = .ok aliases := by
  induction aliases with
  | nil => rfl
  | cons entry aliases ih =>
    show (do return (entry.1, entry.2) :: (← readAliases (aliasWords aliases))) = _
    rw [ih]
    rfl

theorem aliasWords_concat :
    aliasWords (aliases ++ [(alt, real)]) = aliasWords aliases ++ [.real real] ++ [.alt alt] := by
  rw [aliasWords, flatMap_append, append_assoc]
  rfl

/-- **The loop writes the aliases** that it reads, if the range that it writes to has room for them
and is apart from what it reads. -/
theorem foldlM_addKeyAlias {done : List (AtomId × AtomId)} {dst size : ℕ}
    (hentry : ∀ alt ∈ alts, cells[alt]? = some (.entry (names.getD alt .absent)))
    (hsize : 2 * (done.length + (aliasesIn names alts).length) ≤ size)
    (hfits : dst + size ≤ cells.length) (hapart : ∀ alt ∈ alts, alt < dst ∨ dst + size ≤ alt)
    (hunread : ∀ alt ∈ alts, ∀ i, dst ≤ i → i < dst + size → unreadAlias cells alt i = false) :
    alts.foldlM addKeyAlias (Splice.overwrite cells dst (aliasWords done), dst + 2 * done.length) =
      .ok (Splice.overwrite cells dst (aliasWords (done ++ aliasesIn names alts)),
        dst + 2 * (done.length + (aliasesIn names alts).length)) := by
  induction alts generalizing done with
  | nil =>
    rw [aliasesIn, filterMap_nil, append_nil]
    rfl
  | cons alt alts ih =>
    have hwords := length_aliasWords done
    have hread : (Splice.overwrite cells dst (aliasWords done))[alt]? =
        some (.entry (names.getD alt .absent)) := by
      rw [← hentry alt mem_cons_self]
      refine getElem?_overwrite_of_not (by omega) fun ⟨hle, hlt⟩ => ?_
      exact (hapart alt mem_cons_self).elim (not_lt.mpr hle) (not_le.mpr (hlt.trans_le (by omega)))
    have hentry' : ∀ alt' ∈ alts, cells[alt']? = some (.entry (names.getD alt' .absent)) :=
      fun alt' hmem => hentry alt' (.tail _ hmem)
    have hapart' : ∀ alt' ∈ alts, alt' < dst ∨ dst + size ≤ alt' :=
      fun alt' hmem => hapart alt' (.tail _ hmem)
    have hunread' : ∀ alt' ∈ alts, ∀ i, dst ≤ i → i < dst + size →
        unreadAlias cells alt' i = false := fun alt' hmem => hunread alt' (.tail _ hmem)
    rw [foldlM_cons, addKeyAlias, hread]
    by_cases halias : ∃ real, names.getD alt .absent = .aliasOf real
    · obtain ⟨real, hreal⟩ := halias
      rw [aliasesIn_cons_of_aliasOf hreal, length_cons] at hsize ⊢
      -- the slots that are written hold what they held at first
      have hslot : ∀ i, dst + 2 * done.length ≤ i → i < dst + 2 * done.length + 2 →
          unreadAlias (Splice.overwrite cells dst (aliasWords done)) alt i = false := by
        intro i hi hi'
        rw [← hunread alt mem_cons_self i (by omega) (by omega), unreadAlias, unreadAlias,
          getElem?_overwrite_of_not (by omega) (by omega)]
      have hset : ((Splice.overwrite cells dst (aliasWords done)).set (dst + 2 * done.length)
          (.real real)).set (dst + 2 * done.length + 1) (.alt alt) =
          Splice.overwrite cells dst (aliasWords (done ++ [(alt, real)])) := by
        rw [aliasWords_concat, ← set_overwrite, ← set_overwrite, length_append, hwords]
        · rfl
        · omega
        · rw [length_append, hwords, length_singleton]
          omega
      rw [hreal]
      dsimp only
      have hlength : (Splice.overwrite cells dst (aliasWords done)).length = cells.length :=
        Splice.length_overwrite (by omega)
      have hfree : ¬(unreadAlias (Splice.overwrite cells dst (aliasWords done)) alt
          (dst + 2 * done.length) ||
          unreadAlias (Splice.overwrite cells dst (aliasWords done)) alt
            (dst + 2 * done.length + 1)) = true := by
        rw [hslot _ (le_refl _) (by omega), hslot _ (Nat.le_succ _) (by omega)]
        exact Bool.false_ne_true
      rw [if_neg (by omega), if_neg hfree, hset]
      have hnext := @ih (done ++ [(alt, real)]) hentry'
        (by rw [length_append, length_singleton]; omega) hapart' hunread'
      rw [length_append, length_singleton, append_assoc] at hnext
      refine Eq.trans ?_ (hnext.trans ?_)
      · rfl
      · rw [add_assoc, add_comm 1]
        rfl
    · rw [aliasesIn_cons_of_ne (not_exists.mp halias)] at hsize ⊢
      rcases hfound : names.getD alt .absent with - | slot | real
      · exact ih hentry' hsize hapart' hunread'
      · exact ih hentry' hsize hapart' hunread'
      · exact absurd ⟨real, hfound⟩ halias

/-- `add_key_aliases` writes all aliases, under the same conditions. -/
theorem addKeyAliases_eq {dst : ℕ} (hne : allAliases names ≠ [])
    (hentry : ∀ alt < names.length, cells[alt]? = some (.entry (names.getD alt .absent)))
    (hfits : dst + 2 * (allAliases names).length ≤ cells.length)
    (hapart : (rangeOf (allAliases names)).max < dst ∨
      dst + 2 * (allAliases names).length ≤ (rangeOf (allAliases names)).min)
    (hunread : ∀ i, dst ≤ i → (rangeOf (allAliases names)).max < i →
      ∀ alt, unreadAlias cells alt i = false) :
    addKeyAliases cells (rangeOf (allAliases names)) dst =
      .ok (Splice.overwrite cells dst (aliasWords (allAliases names))) := by
  have hlt := max_lt_length (listsAliases_allAliases names) hne
  have hall := aliasesIn_range hne
  generalize rangeOf (allAliases names) = range at *
  have hmem : ∀ alt ∈ range' range.min (range.max + 1 - range.min),
      range.min ≤ alt ∧ alt ≤ range.max := by
    intro alt halt
    have := mem_range'_1.mp halt
    omega
  have hloop := @foldlM_addKeyAlias cells names (range' range.min (range.max + 1 - range.min)) []
    dst (2 * (allAliases names).length)
    (fun alt halt => hentry alt (by have := hmem alt halt; omega))
    (by rw [hall, length_nil, zero_add]) hfits
    (fun alt halt => hapart.imp (lt_of_le_of_lt (hmem alt halt).2)
      fun hle => le_trans hle (hmem alt halt).1)
    (by
      intro alt halt i hi hi'
      by_cases hmax : range.max < i
      · exact hunread i hi hmax alt
      · -- the range is before the first alias, and what is before an alias is not after it
        have := hmem alt halt
        rw [unreadAlias]
        split
        · exact decide_eq_false (by omega)
        · rfl)
  have hstart : Splice.overwrite cells dst (aliasWords []) = cells := overwrite_nil
  rw [hstart, hall, length_nil, Nat.mul_zero, add_zero, nil_append] at hloop
  rw [addKeyAliases, hloop]
  rfl

/-! ### The three branches -/

/-- The cells of the table. -/
theorem getElem?_map_entry (h : alt < names.length) :
    (names.map NameCell.entry)[alt]? = some (.entry (names.getD alt .absent)) := by
  rw [getElem?_map, getElem?_eq_getElem h, getD_eq_getElem _ _ h]
  rfl

/-- Past the last alias there is none. -/
theorem unreadAlias_past {i : ℕ} (h : ∀ real, cells[i]? ≠ some (.entry (.aliasOf real))) (alt : ℕ) :
    unreadAlias cells alt i = false := by
  rw [unreadAlias]
  split
  · exact absurd ‹_› (h _)
  · rfl

/-- **The copy overlaps**: there is no room before the first alias but there is room after the last
one, and the aliases take more slots than there are up to the last one. -/
def CopyOverlaps (names : List KeycodeMatch) : Prop :=
  ∃ first last, (allAliases names).head? = some first ∧ (allAliases names).getLast? = some last ∧
    first.1 < 2 * (allAliases names).length ∧
    2 * (allAliases names).length < names.length - last.1 - 1 ∧
    last.1 + 1 + (last.1 + 1) % 2 < 2 * (allAliases names).length

theorem copyOverlaps_iff (hne : allAliases names ≠ []) :
    CopyOverlaps names ↔
      (rangeOf (allAliases names)).min < 2 * (allAliases names).length ∧
      2 * (allAliases names).length < names.length - (rangeOf (allAliases names)).max - 1 ∧
      (rangeOf (allAliases names)).max + 1 + ((rangeOf (allAliases names)).max + 1) % 2 <
        2 * (allAliases names).length := by
  have hfirst := head?_eq_some_head hne
  have hlast := getLast?_eq_some_getLast hne
  rw [CopyOverlaps, rangeOf, hfirst, hlast]
  constructor
  · rintro ⟨first, last, ⟨⟩, ⟨⟩, hoverlaps⟩
    exact hoverlaps
  · exact fun hoverlaps => ⟨_, _, rfl, rfl, hoverlaps⟩

/-- The words of a range of their own are read back. -/
theorem readAliases_overwrite {dst : ℕ} (hdst : dst ≤ cells.length) :
    readAliases (((Splice.overwrite cells dst (aliasWords (allAliases names))).drop dst).take
      (2 * (allAliases names).length)) = .ok (allAliases names) := by
  rw [← length_aliasWords, take_drop_overwrite hdst, readAliases_aliasWords]

/-- The aliases are written after the last one, and moved to the start. -/
theorem moveToStart_overwrite {src : ℕ} (hsrc : src + 2 * (allAliases names).length ≤ cells.length)
    (hapart : ¬src < 2 * (allAliases names).length) :
    moveToStart (Splice.overwrite cells src (aliasWords (allAliases names))) src
      (2 * (allAliases names).length) =
      .ok (Splice.overwrite (Splice.overwrite cells src (aliasWords (allAliases names))) 0
        (aliasWords (allAliases names))) := by
  have hwords := length_aliasWords (allAliases names)
  rw [moveToStart, if_neg hapart, if_neg, ← hwords, take_drop_overwrite (by omega)]
  rw [Splice.length_overwrite (by omega)]
  omega

/-- **What the function does**: it lists the aliases, unless the copy overlaps. -/
theorem updateKeyAliases_spec (names : List KeycodeMatch) :
    (CopyOverlaps names ∧ updateKeyAliases names = .error .overlap) ∨
    (¬CopyOverlaps names ∧ updateKeyAliases names = .ok (allAliases names)) := by
  rw [updateKeyAliases, scanAliases_eq]
  dsimp only
  by_cases hnil : allAliases names = []
  · refine .inr ⟨?_, ?_⟩
    · rintro ⟨first, -, hfirst, -⟩
      rw [hnil] at hfirst
      cases hfirst
    · rw [hnil]
      rfl
  have hnum : (rangeOf (allAliases names)).num = (allAliases names).length := rfl
  have hpos : (allAliases names).length ≠ 0 := by simpa using hnil
  have hlists := listsAliases_allAliases names
  have hlt := max_lt_length hlists hnil
  have hle : (rangeOf (allAliases names)).min ≤ (rangeOf (allAliases names)).max := by
    obtain ⟨entry, hentry⟩ := exists_mem_of_ne_nil _ hnil
    obtain ⟨hmin, hmax⟩ := rangeOf_bounds hlists hentry
    exact hmin.trans hmax
  have hpast : ∀ i, (rangeOf (allAliases names)).max < i → ∀ real,
      names.getD i .absent ≠ .aliasOf real := by
    intro i hi real hentry
    exact absurd hi (not_lt.mpr (rangeOf_bounds hlists ((hlists.mem_iff i real).mpr hentry)).2)
  have hunread : ∀ i, (rangeOf (allAliases names)).max < i → ∀ alt,
      unreadAlias (names.map NameCell.entry) alt i = false := by
    intro i hi
    refine unreadAlias_past fun real hcell => ?_
    rw [getElem?_map] at hcell
    obtain ⟨found, hfound, hentry⟩ := Option.map_eq_some_iff.mp hcell
    refine hpast i hi real ?_
    rw [getD_eq_getElem?_getD, hfound, NameCell.entry.inj hentry]
    rfl
  have hlength : (names.map NameCell.entry).length = names.length := length_map ..
  rw [hnum, if_neg hpos, copyOverlaps_iff hnil]
  split_ifs with hbefore hafter
  · -- before the first alias
    refine .inr ⟨by omega, ?_⟩
    rw [addKeyAliases_eq hnil (fun alt halt => getElem?_map_entry halt) (by omega)
      (.inr (by omega)) ?_]
    · exact readAliases_overwrite (Nat.zero_le _)
    · exact fun i _ hi => hunread i hi
  · -- after the last alias
    generalize hfirst : (rangeOf (allAliases names)).max + 1 +
      ((rangeOf (allAliases names)).max + 1) % 2 = first
    rw [addKeyAliases_eq hnil (fun alt halt => getElem?_map_entry halt) (by omega)
      (.inl (by omega)) ?_]
    · by_cases hoverlap : first < 2 * (allAliases names).length
      · refine .inl ⟨by omega, ?_⟩
        show (moveToStart _ first _ >>= _) = _
        rw [moveToStart, if_pos hoverlap]
        rfl
      · refine .inr ⟨by omega, ?_⟩
        show (moveToStart _ first _ >>= _) = _
        rw [moveToStart_overwrite (by omega) hoverlap]
        exact readAliases_overwrite (Nat.zero_le _)
    · exact fun i _ hi => hunread i hi
  · -- in an array of its own
    refine .inr ⟨by omega, ?_⟩
    rw [addKeyAliases_eq hnil ?_ ?_ (.inl hlt) ?_]
    · refine readAliases_overwrite ?_
      rw [length_append, hlength]
      omega
    · intro alt halt
      rw [getElem?_append_left (by omega), getElem?_map_entry halt]
    · rw [length_append, hlength, length_replicate]
    · intro i hi _
      refine unreadAlias_past fun real hcell => ?_
      rw [getElem?_append_right (by omega), getElem?_replicate] at hcell
      split_ifs at hcell
      exact KeycodeMatch.noConfusion (NameCell.entry.inj (Option.some.inj hcell))

/-- **The list of the aliases** is right in each of the three branches, without a fault, exactly if
the copy to the start does not overlap. -/
theorem aliases_listed_iff (names : List KeycodeMatch) :
    (∃ aliases, updateKeyAliases names = .ok aliases ∧ ListsAliases names aliases) ↔
      ¬CopyOverlaps names := by
  rcases updateKeyAliases_spec names with ⟨hoverlaps, herror⟩ | ⟨hapart, hok⟩
  · refine iff_of_false ?_ (not_not.mpr hoverlaps)
    rintro ⟨aliases, hok, -⟩
    cases herror.symm.trans hok
  · exact iff_of_true ⟨_, hok, listsAliases_allAliases names⟩ hapart

/-- Three aliases at the start of the table, and room for them after the last one. -/
theorem dense_aliases_overlap :
    updateKeyAliases ([.absent, .aliasOf 4, .aliasOf 4, .aliasOf 4, .key (.low 10)] ++
      List.replicate 6 .absent) = .error .overlap := by
  decide +kernel

end Xkbcommon.Xkbcomp
