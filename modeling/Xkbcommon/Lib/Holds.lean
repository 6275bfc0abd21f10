import Mathlib.Data.Set.Card

/-!
# Who holds a resource

A resource is held by keys, each with a number of releases that it still waits for. The
holds are kept in a table, and the events are presses, repeats and releases of one key. A
hold either *counts* the presses of its key or is a *latch*, which does not: it ends with
the first release. New holds start with one release to wait for, and only on a press or a
repeat. `Holds.Turn` says what an event may do to the table and reports whether a hold
started and whether one ended.

Two slots may hold for the same key with the same number of releases to go. They end
together, and the report of the event does not tell one from two; so what is counted is
not the slots but the *holders* – the pairs of a key and a number of releases
(`Holds.holders`). An event that reports a start adds a holder, unless a latch of the
same key is already there (`Holds.Turn.ncard_press`), and one that does not report an end
removes none (`Holds.Turn.ncard_release`).
-/

namespace Holds

open Set Option

variable {κ : Type*} {p : κ × ℤ}

/-- What happens to a key. -/
inductive Move
  | press | rep | release
  deriving DecidableEq

/-- A hold of a key: the releases that it waits for, and whether it is a latch. -/
structure Hold (κ : Type*) where
  key : κ
  count : ℤ
  latch : Bool

/-- The hold after an event of a key. -/
def Hold.next [DecidableEq κ] (k : κ) (m : Move) (h : Hold κ) : Option (Hold κ) :=
  if h.key ≠ k then some h
  else match m with
    | .press => some (if h.latch then h else { h with count := h.count + 1 })
    | .rep => some h
    | .release =>
      if h.latch = true ∨ h.count ≤ 1 then none else some { h with count := h.count - 1 }

section Next

variable [DecidableEq κ] {k : κ} {m : Move} {h : Hold κ}

theorem Hold.next_of_ne (hkey : h.key ≠ k) : h.next k m = some h := if_pos hkey

theorem Hold.next_rep : h.next k .rep = some h := ite_self _

theorem Hold.next_press_latch (hlatch : h.latch = true) : h.next k .press = some h := by
  rw [next, hlatch]
  exact ite_self _

theorem Hold.next_press (hkey : h.key = k) (hlatch : h.latch = false) :
    h.next k .press = some { h with count := h.count + 1 } := by
  rw [next, if_neg (not_not.mpr hkey), hlatch]
  rfl

theorem Hold.next_release (hkey : h.key = k) (hlatch : h.latch = false) (hcount : 1 < h.count) :
    h.next k .release = some { h with count := h.count - 1 } := by
  rw [next, if_neg (not_not.mpr hkey)]
  exact if_neg (by simp [hlatch, hcount])

theorem Hold.next_release_dead (hkey : h.key = k) (hdead : h.latch = true ∨ h.count ≤ 1) :
    h.next k .release = none := by
  rw [next, if_neg (not_not.mpr hkey)]
  exact if_pos hdead

theorem Hold.eq_of_next_eq_none (hnone : h.next k m = none) : h.key = k ∧ m = .release := by
  by_cases hkey : h.key = k
  · refine ⟨hkey, ?_⟩
    cases m with
    | press =>
      rw [next, if_neg (not_not.mpr hkey)] at hnone
      cases hnone
    | rep => cases hnone.symm.trans next_rep
    | release => rfl
  · cases hnone.symm.trans (next_of_ne hkey)

theorem Hold.key_of_next {h' : Hold κ} (hnext : h.next k m = some h') : h'.key = h.key := by
  unfold next at hnext
  split at hnext
  · rw [← some.inj hnext]
  · cases m with
    | press =>
      rw [← some.inj hnext]
      split <;> rfl
    | rep => rw [← some.inj hnext]
    | release =>
      dsimp only at hnext
      split at hnext
      · cases hnext
      · rw [← some.inj hnext]

end Next

/-- A table of holds. -/
abbrev Table (κ : Type*) := ℕ → Option (Hold κ)

/-- What an event of a key may do to one slot. -/
inductive Turned [DecidableEq κ] (k : κ) (m : Move) : Option (Hold κ) → Option (Hold κ) → Prop
  | kept (h : Hold κ) : Turned k m (some h) (h.next k m)
  | free : Turned k m none none
  | born (latch : Bool) : m ≠ .release → Turned k m none (some ⟨k, 1, latch⟩)

/-- **One event of a key**, with the report whether a hold started and whether one ended.
The report of an end may be wrong. Repeats start nothing while the key holds. -/
structure Turn [DecidableEq κ] (k : κ) (m : Move) (v v' : Table κ) (start stop : Bool) : Prop where
  slot : ∀ i, Turned k m (v i) (v' i)
  start_iff : start = true ↔ ∃ i, v i = none ∧ v' i ≠ none
  stop_of_dead : ∀ i, v i ≠ none → v' i = none → stop = true
  rep : m = .rep → start = true → ∀ i h, v i = some h → h.key ≠ k

/-- The holders of a table. -/
def holders (v : Table κ) : Set (κ × ℤ) := {p | ∃ i h, v i = some h ∧ (h.key, h.count) = p}

theorem holders_finite {v : Table κ} {n : ℕ} (h : ∀ i, n ≤ i → v i = none) :
    (holders v).Finite := by
  have himage := (finite_lt_nat n).image fun i => (v i).map fun g => (g.key, g.count)
  refine (himage.preimage (some_injective _).injOn).subset ?_
  rintro p ⟨i, g, hg, rfl⟩
  refine ⟨i, ?_, by simp [hg]⟩
  by_contra hi
  rw [h i (by simpa using hi)] at hg
  cases hg

/-- The holds wait for at least one release, and for at most as many as `depth` says. -/
structure Within (depth : κ → ℤ) (v : Table κ) : Prop where
  pos : ∀ i h, v i = some h → 1 ≤ h.count
  le : ∀ i h, v i = some h → h.count ≤ depth h.key
  latch : ∀ i h, v i = some h → h.latch = true → h.count = 1

/-- Some hold of a holder counts presses. -/
def Counted (v : Table κ) (p : κ × ℤ) : Prop :=
  ∃ i g, v i = some g ∧ (g.key, g.count) = p ∧ g.latch = false

open Classical in
/-- Where a holder is after a press: a counted one waits for one more release, and so makes
room for a new one. -/
noncomputable def shift (k : κ) (v : Table κ) (p : κ × ℤ) : κ × ℤ :=
  if p.1 = k ∧ Counted v p then (p.1, p.2 + 1) else p

namespace Within

variable {depth : κ → ℤ} {v : Table κ}

/-- Nothing is held by keys that are up. -/
theorem holders_eq_empty (h : Within depth v) (hdepth : ∀ k, depth k = 0) : holders v = ∅ := by
  refine eq_empty_of_forall_notMem ?_
  rintro p ⟨i, g, hg, -⟩
  have hpos := h.pos i g hg
  have hle := h.le i g hg
  rw [hdepth] at hle
  omega

/-- A holder that is not counted waits for one release. -/
theorem eq_one_of_not_counted (hv : Within depth v) (hp : p ∈ holders v) (hc : ¬Counted v p) :
    p.2 = 1 := by
  obtain ⟨i, g, hg, rfl⟩ := hp
  refine hv.latch i g hg ?_
  by_contra hl
  exact hc ⟨i, g, hg, rfl, by simpa using hl⟩

theorem pos_of_mem (hv : Within depth v) (hp : p ∈ holders v) : 1 ≤ p.2 := by
  obtain ⟨i, g, hg, rfl⟩ := hp
  exact hv.pos i g hg

theorem shift_injOn (hv : Within depth v) (k : κ) : Set.InjOn (shift k v) (holders v) := by
  have hmixed : ∀ p ∈ holders v, ∀ q ∈ holders v, p.1 = k → ¬(q.1 = k ∧ Counted v q) →
      (p.1, p.2 + 1) ≠ q := by
    rintro p hp q hq hkey hnot rfl
    have hpos := hv.pos_of_mem hp
    have hone := hv.eq_one_of_not_counted hq fun hc => hnot ⟨hkey, hc⟩
    dsimp only at hone
    omega
  intro p hp q hq heq
  unfold shift at heq
  split at heq <;> split at heq
  · obtain ⟨hkey, hcount⟩ := Prod.mk.inj heq
    exact Prod.ext hkey (by omega)
  · rename_i hcp hcq
    exact absurd heq (hmixed p hp q hq hcp.1 hcq)
  · rename_i hcp hcq
    exact absurd heq.symm (hmixed q hq p hp hcq.1 hcp)
  · exact heq

end Within

/-- The depth of a key after an event. -/
def Move.depth (m : Move) (d : ℤ) : ℤ :=
  match m with
  | .press => d + 1
  | .rep => d
  | .release => d - 1

namespace Turn

variable [DecidableEq κ] {k : κ} {m : Move} {v v' : Table κ} {start stop : Bool} {i : ℕ}

/-- What holds after an event was there before, or starts with it. -/
theorem cases (h : Turn k m v v' start stop) {g' : Hold κ} (hg' : v' i = some g') :
    (∃ g, v i = some g ∧ g.next k m = some g') ∨
      (v i = none ∧ m ≠ .release ∧ start = true ∧ g'.key = k ∧ g'.count = 1) := by
  have hslot := h.slot i
  have hstart : v i = none → start = true := fun hv =>
    h.start_iff.mpr ⟨i, hv, by rw [hg']; simp⟩
  rw [hg'] at hslot
  generalize v i = o at hslot hstart ⊢
  generalize ho' : some g' = o' at hslot
  cases hslot with
  | kept g => exact .inl ⟨g, rfl, rfl⟩
  | free => cases ho'
  | born latch hm =>
    obtain rfl := some.inj ho'
    exact .inr ⟨rfl, hm, hstart rfl, rfl, rfl⟩

theorem next_eq (h : Turn k m v v' start stop) {g : Hold κ} (hg : v i = some g) :
    v' i = g.next k m := by
  have hslot := h.slot i
  rw [hg] at hslot
  generalize v' i = o at hslot ⊢
  cases hslot
  rfl

theorem mem_of_start (h : Turn k m v v' start stop) (hstart : start = true) :
    (k, 1) ∈ holders v' := by
  obtain ⟨i, hi, hi'⟩ := h.start_iff.mp hstart
  obtain ⟨g', hg'⟩ := ne_none_iff_exists'.mp hi'
  obtain ⟨g, hg, -⟩ | ⟨-, -, -, hkey, hcount⟩ := h.cases hg'
  · cases hi.symm.trans hg
  · exact ⟨i, g', hg', by rw [hkey, hcount]⟩

theorem stop_of_mem (h : Turn k .release v v' start stop) (hmem : (k, 1) ∈ holders v) :
    stop = true := by
  obtain ⟨i, g, hg, hp⟩ := hmem
  obtain ⟨hkey, hcount⟩ := Prod.mk.inj hp
  refine h.stop_of_dead i (by simp [hg]) ?_
  rw [h.next_eq hg, Hold.next_release_dead hkey (.inr (by omega))]

/-! ### Counting holders -/

theorem shift_mem (h : Turn k .press v v' start stop) (hp : p ∈ holders v) :
    shift k v p ∈ holders v' := by
  obtain ⟨i, g, hg, rfl⟩ := hp
  unfold shift
  split
  · rename_i hp
    obtain ⟨hkey, j, g', hg', hpair, hcounted⟩ := hp
    obtain ⟨hkey', hcount'⟩ := Prod.mk.inj hpair
    refine ⟨j, { g' with count := g'.count + 1 }, ?_, by simp [hkey', hcount']⟩
    rw [h.next_eq hg', Hold.next_press (hkey'.trans hkey) hcounted]
  · rename_i hp
    refine ⟨i, g, ?_, rfl⟩
    rw [h.next_eq hg]
    by_cases hkey : g.key = k
    · refine Hold.next_press_latch ?_
      by_contra hl
      exact hp ⟨hkey, i, g, hg, rfl, by simpa using hl⟩
    · exact Hold.next_of_ne hkey

/-- **A press that reports a start adds a holder**, unless a latch of the key holds
already; other presses remove none. -/
theorem ncard_press {depth : κ → ℤ} (h : Turn k .press v v' start stop) (hv : Within depth v)
    (hfin : (holders v).Finite) (hfin' : (holders v').Finite)
    (hlatch : start = true → ∀ i g, v i = some g → g.key = k → g.latch = false) :
    (holders v).ncard + (if start then 1 else 0) ≤ (holders v').ncard := by
  have himage : shift k v '' holders v ⊆ holders v' := by
    rintro _ ⟨p, hp, rfl⟩
    exact h.shift_mem hp
  rw [← (hv.shift_injOn k).ncard_image]
  split
  · rename_i hstart
    have hfresh : (k, 1) ∉ shift k v '' holders v := by
      rintro ⟨p, hp, hpk⟩
      have hpos := hv.pos_of_mem hp
      unfold shift at hpk
      split at hpk
      · have := congrArg Prod.snd hpk
        dsimp only at this
        omega
      · rename_i hnot
        subst hpk
        obtain ⟨i, g, hg, hpair⟩ := hp
        exact hnot ⟨rfl, i, g, hg, hpair, hlatch hstart i g hg (congrArg Prod.fst hpair)⟩
    rw [← ncard_insert_of_notMem hfresh (hfin.image _)]
    exact ncard_le_ncard (insert_subset (h.mem_of_start hstart) himage) hfin'
  · exact ncard_le_ncard himage hfin'

/-- The same for a repeat. -/
theorem ncard_rep (h : Turn k .rep v v' start stop) (hfin : (holders v).Finite)
    (hfin' : (holders v').Finite) :
    (holders v).ncard + (if start then 1 else 0) ≤ (holders v').ncard := by
  have hsub : holders v ⊆ holders v' := by
    rintro p ⟨i, g, hg, rfl⟩
    exact ⟨i, g, by rw [h.next_eq hg, Hold.next_rep], rfl⟩
  split
  · rename_i hstart
    have hfresh : (k, 1) ∉ holders v := by
      rintro ⟨i, g, hg, hpair⟩
      exact h.rep rfl hstart i g hg (congrArg Prod.fst hpair)
    rw [← ncard_insert_of_notMem hfresh hfin]
    exact ncard_le_ncard (insert_subset (h.mem_of_start hstart) hsub) hfin'
  · exact ncard_le_ncard hsub hfin'

/-- **A release removes at most one holder**, and none unless it reports an end. -/
theorem ncard_release {depth : κ → ℤ} (h : Turn k .release v v' start stop)
    (hv : Within depth v) (hfin' : (holders v').Finite) :
    (holders v).ncard ≤ (holders v').ncard + if stop then 1 else 0 := by
  let unshift : κ × ℤ → κ × ℤ := fun p => if p.1 = k then (p.1, p.2 - 1) else p
  have hmaps : unshift '' (holders v \ {(k, 1)}) ⊆ holders v' := by
    rintro _ ⟨p, ⟨⟨i, g, hg, rfl⟩, hne⟩, rfl⟩
    dsimp only [unshift]
    split
    · rename_i hkey
      have hcount : g.count ≠ 1 := fun hc => hne (by rw [hkey, hc]; rfl)
      have hpos := hv.pos i g hg
      have hlatch : g.latch = false := by
        by_contra hl
        exact hcount (hv.latch i g hg (by simpa using hl))
      refine ⟨i, { g with count := g.count - 1 }, ?_, rfl⟩
      rw [h.next_eq hg, Hold.next_release hkey hlatch (by omega)]
    · rename_i hkey
      exact ⟨i, g, by rw [h.next_eq hg, Hold.next_of_ne hkey], rfl⟩
  have hinj : Set.InjOn unshift (holders v \ {(k, 1)}) := by
    intro p _ q _ heq
    dsimp only [unshift] at heq
    split at heq <;> split at heq
    · obtain ⟨hkey, hcount⟩ := Prod.mk.inj heq
      exact Prod.ext hkey (by omega)
    · rename_i hp hq
      exact absurd ((congrArg Prod.fst heq).symm.trans hp) hq
    · rename_i hp hq
      exact absurd ((congrArg Prod.fst heq).trans hq) hp
    · exact heq
  have hle : (holders v \ {(k, 1)}).ncard ≤ (holders v').ncard := by
    rw [← hinj.ncard_image]
    exact ncard_le_ncard hmaps hfin'
  split
  · have := pred_ncard_le_ncard_sdiff_singleton (holders v) (k, 1)
    omega
  · rename_i hstop
    rwa [sdiff_singleton_eq_self fun hmem => hstop (h.stop_of_mem hmem)] at hle

/-! ### Depths, and keys that hold once -/

/-- **The holds stay within the depth of their keys**, if repeats come from keys that are
down. -/
theorem within {depth depth' : κ → ℤ} (h : Turn k m v v' start stop) (hv : Within depth v)
    (hself : depth' k = m.depth (depth k)) (hother : ∀ k', k' ≠ k → depth' k' = depth k')
    (hpress : m = .press → 0 ≤ depth k) (hrep : m = .rep → start = true → 1 ≤ depth k) :
    Within depth' v' := by
  have hcase : ∀ i g', v' i = some g' →
      1 ≤ g'.count ∧ g'.count ≤ depth' g'.key ∧ (g'.latch = true → g'.count = 1) := by
    intro i g' hg'
    obtain ⟨g, hg, hnext⟩ | ⟨-, hm, hstart, hkey, hcount⟩ := h.cases hg'
    · have hpos := hv.pos i g hg
      have hle := hv.le i g hg
      have hlatch := hv.latch i g hg
      by_cases hkey : g.key = k
      · rw [hkey] at hle
        cases m with
        | press =>
          cases hl : g.latch with
          | true =>
            rw [Hold.next_press_latch hl] at hnext
            obtain rfl := some.inj hnext
            rw [hkey, hself, Move.depth]
            exact ⟨hpos, by omega, hlatch⟩
          | false =>
            rw [Hold.next_press hkey hl] at hnext
            obtain rfl := some.inj hnext
            dsimp only
            rw [hkey, hself, Move.depth]
            exact ⟨by omega, by omega, fun hl' => absurd (hl.symm.trans hl') (by decide)⟩
        | rep =>
          rw [Hold.next_rep] at hnext
          obtain rfl := some.inj hnext
          rw [hkey, hself]
          exact ⟨hpos, hle, hlatch⟩
        | release =>
          by_cases hdead : g.latch = true ∨ g.count ≤ 1
          · rw [Hold.next_release_dead hkey hdead] at hnext
            cases hnext
          · obtain ⟨hl, hc⟩ := not_or.mp hdead
            rw [Hold.next_release hkey (by simpa using hl) (by omega)] at hnext
            obtain rfl := some.inj hnext
            dsimp only
            rw [hkey, hself, Move.depth]
            exact ⟨by omega, by omega, fun hl' => absurd hl' hl⟩
      · rw [Hold.next_of_ne hkey] at hnext
        obtain rfl := some.inj hnext
        exact ⟨hpos, (hother _ hkey).symm ▸ hle, hlatch⟩
    · rw [hkey, hself, hcount]
      refine ⟨Int.le_refl 1, ?_, fun _ => rfl⟩
      cases m with
      | press =>
        have := hpress rfl
        rw [Move.depth]
        omega
      | rep => exact hrep rfl hstart
      | release => exact absurd rfl hm
  exact ⟨fun i g hg => (hcase i g hg).1, fun i g hg => (hcase i g hg).2.1,
    fun i g hg => (hcase i g hg).2.2⟩

theorem holders_subset_insert (h : Turn k m v v' start stop) (hm : m ≠ .release)
    (hnone : m = .press → ∀ i g, v i = some g → g.key ≠ k) :
    holders v' ⊆ if start then insert (k, 1) (holders v) else holders v := by
  rintro p ⟨i, g', hg', rfl⟩
  obtain ⟨g, hg, hnext⟩ | ⟨-, -, hstart, hkey, hcount⟩ := h.cases hg'
  · have hsame : g.next k m = some g := by
      cases m with
      | press => exact Hold.next_of_ne (hnone rfl i g hg)
      | rep => exact Hold.next_rep
      | release => exact absurd rfl hm
    obtain rfl := some.inj (hsame.symm.trans hnext)
    have hmem : (g.key, g.count) ∈ holders v := ⟨i, g, hg, rfl⟩
    split
    · exact mem_insert_of_mem _ hmem
    · exact hmem
  · rw [if_pos hstart, hkey, hcount]
    exact mem_insert _ _

/-- A key that holds nothing adds one holder, if any. -/
theorem ncard_le_insert (h : Turn k m v v' start stop) (hm : m ≠ .release)
    (hfin : (holders v).Finite) (hnone : m = .press → ∀ i g, v i = some g → g.key ≠ k) :
    (holders v').ncard ≤ (holders v).ncard + if start then 1 else 0 := by
  have hsub := h.holders_subset_insert hm hnone
  split at hsub
  · rename_i hstart
    rw [if_pos hstart]
    exact (ncard_le_ncard hsub (hfin.insert _)).trans (ncard_insert_le _ _)
  · rename_i hstart
    rw [if_neg hstart]
    exact ncard_le_ncard hsub hfin

/-- A key that holds at most once releases all that it holds. -/
theorem holders_subset_sdiff (h : Turn k .release v v' start stop)
    (hone : ∀ i g, v i = some g → g.key = k → g.count ≤ 1) : holders v' ⊆ holders v \ {(k, 1)} := by
  rintro p ⟨i, g', hg', rfl⟩
  obtain ⟨g, hg, hnext⟩ | ⟨-, hm, -⟩ := h.cases hg'
  · have hkey : g.key ≠ k := by
      intro hkey
      rw [Hold.next_release_dead hkey (.inr (hone i g hg hkey))] at hnext
      cases hnext
    rw [Hold.next_of_ne hkey] at hnext
    obtain rfl := some.inj hnext
    exact ⟨⟨i, g, hg, rfl⟩, fun hp => hkey (congrArg Prod.fst hp)⟩
  · exact absurd rfl hm

end Turn

end Holds
