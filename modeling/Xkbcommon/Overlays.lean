import Xkbcommon.Changes
import Xkbcommon.Histories
import Xkbcommon.Lib.Nibbles

/-!
# Overlays of a machine

While an overlay is enabled, its keys are handled as other keys. A key may be in several
overlays; the one that was enabled last decides. The code keeps the enabled overlays in a
word of nibbles, the latest lowest, and the keys that are down in a table whose free
entries are used again.

* `Xkbcommon.StackOk` – the word holds the enabled overlays in the order in which they
  were enabled, `Xkbcommon.recency`. The loop that removes overlays looks at as many
  nibbles as the keymap format has overlays, so `Xkbcommon.StackOk.update` needs that no
  other overlay is enabled.
* `Xkbcommon.TableTurn` – what one event of a key does to the table.
-/

namespace Xkbcommon

open Masks Nibbles List BitVec Slots Option XkbOverlaidKey

variable {l : List ℕ} {e : XkbOverlaidKey} {mask : BitVec 8} {fuel : ℕ} {order : BitVec 32}

/-! ### The stack of enabled overlays -/

/-- The overlays in the order in which they were enabled, the latest first, after a call
that leaves the overlays of a mask enabled. Those that one call enables count as enabled
in ascending order. -/
def recency (l : List ℕ) (mask : BitVec 8) : List ℕ :=
  ((List.range 8).filter fun i => mask.getLsbD i && !l.contains i).reverse ++
    l.filter (mask.getLsbD ·)

/-- **The stack of a machine**: the enabled overlays, the latest first. -/
structure StackOk (mask : BitVec 8) (overlays : MachineOverlays) (l : List ℕ) : Prop where
  packs : Packs overlays.order (l.map (· + 1))
  enabled : overlays.enabled = mask
  nodup : l.Nodup
  mem : ∀ i, i ∈ l ↔ mask.getLsbD i = true

theorem mem_recency (l : List ℕ) (mask : BitVec 8) (i : ℕ) :
    i ∈ recency l mask ↔ mask.getLsbD i = true := by
  simp only [recency, mem_append, mem_reverse, mem_filter, mem_range,
    Bool.and_eq_true, Bool.not_eq_true', contains_eq_mem, decide_eq_false_iff_not]
  constructor
  · rintro (⟨-, h, -⟩ | ⟨-, h⟩) <;> exact h
  · intro h
    by_cases hl : i ∈ l
    · exact .inr ⟨hl, h⟩
    · exact .inl ⟨lt_of_getLsbD h, h, hl⟩

theorem nodup_recency (h : l.Nodup) (mask : BitVec 8) : (recency l mask).Nodup := by
  refine nodup_append.mpr ⟨nodup_reverse.mpr (nodup_range.filter _), h.filter _, ?_⟩
  rintro i hi j hj rfl
  simp only [mem_reverse, mem_filter, Bool.and_eq_true, Bool.not_eq_true',
    contains_eq_mem, decide_eq_false_iff_not] at hi hj
  exact hi.2.2 hj.1

/-- Nothing changes if the same overlays stay enabled. -/
theorem recency_self (h : ∀ i, i ∈ l ↔ mask.getLsbD i = true) : recency l mask = l := by
  have hnew : ((List.range 8).filter fun i => mask.getLsbD i && !l.contains i) = [] := by
    refine filter_eq_nil_iff.mpr fun i _ => ?_
    by_cases hi : i ∈ l <;> simp [hi, (h i).symm]
  rw [recency, hnew, reverse_nil, nil_append]
  exact filter_eq_self.mpr fun i hi => (h i).mp hi

theorem length_le_of_nodup (hnodup : l.Nodup) {n : ℕ} (h : ∀ i ∈ l, i < n) : l.length ≤ n := by
  have hsub := hnodup.subperm fun i hi => mem_range.mpr (h i hi)
  simpa using hsub.length_le

/-- The loop that removes overlays: it passes those of `kept`, looks at those of `rest` and
leaves the new overlays alone. -/
theorem removeOverlays_spec (mask : BitVec 8) {added : BitVec 8} {overlayMax : ℕ} {rest : List ℕ}
    (hrest : ∀ i ∈ rest, i < 8 ∧ added.getLsbD i = false) (hfuel : rest.length ≤ fuel)
    (kept : List ℕ) (hmax : kept.length + rest.length ≤ overlayMax)
    (h : Packs order ((kept ++ rest).map (· + 1))) :
    ∃ order', removeOverlays mask overlayMax fuel kept.length order added = (order', added) ∧
      Packs order' ((kept ++ rest.filter (mask.getLsbD ·)).map (· + 1)) := by
  induction rest generalizing fuel kept order with
  | nil =>
    refine ⟨order, ?_, by simpa using h⟩
    cases fuel with
    | zero => rfl
    | succ fuel =>
      rw [removeOverlays]
      split
      · rfl
      · have hdigit : ((order >>> (kept.length * 4)) &&& 0xf#32).toNat = 0 := by
          by_cases hlen : 4 * (kept.length + 1) ≤ 32
          · rw [h.digit hlen]
            simp
          · refine (congrArg BitVec.toNat ?_).trans (toNat_zero)
            refine eq_of_getLsbD_eq fun i hi => ?_
            rw [getLsbD_and, getLsbD_ushiftRight, getLsbD_of_ge _ _ (by omega)]
            simp
        rw [if_pos hdigit]
  | cons i rest ih =>
    obtain ⟨fuel, rfl⟩ : ∃ n, fuel = n + 1 := ⟨fuel - 1, by simp at hfuel; omega⟩
    simp only [length_cons] at hfuel hmax
    obtain ⟨hi, hadded⟩ := hrest i mem_cons_self
    have hrest' : ∀ j ∈ rest, j < 8 ∧ added.getLsbD j = false := fun j hj =>
      hrest j (mem_cons_of_mem i hj)
    have hfits := h.fits
    have hdigit : ((order >>> (kept.length * 4)) &&& 0xf#32).toNat = i + 1 := by
      simp only [length_map, length_append, length_cons] at hfits
      rw [h.digit (by omega)]
      simp
    rw [removeOverlays, if_neg (by omega)]
    dsimp only
    rw [hdigit, if_neg (by omega), Nat.add_sub_cancel, anyBit_comm, anyBit_one_shiftLeft _ hi]
    by_cases hmask : mask.getLsbD i = true
    · -- the overlay stays, and it was not among the new ones
      have hkeep : added &&& ~~~(1#8 <<< i) = added := by
        refine eq_of_getLsbD_eq fun j hj => ?_
        have hone := getLsbD_one_shiftLeft hj i
        rw [getLsbD_and, getLsbD_not]
        by_cases hji : j = i
        · rw [hji, hadded, Bool.false_and]
        · rw [Bool.eq_false_iff.mpr (mt hone.mp hji)]
          simp [hj]
      rw [if_pos hmask, hkeep, filter_cons_of_pos (by simpa using hmask)]
      have hstep := ih hrest' (by omega : rest.length ≤ fuel) (kept ++ [i]) (by simp; omega)
        (by simpa using h)
      simpa using hstep
    · rw [if_neg hmask, filter_cons_of_neg (by simpa using hmask)]
      refine ih hrest' (by omega) kept (by omega) ?_
      have herase := h.eraseIdx (n := kept.length) (by simp)
      rwa [eraseIdx_map, eraseIdx_append_of_length_le (Nat.le_refl _), Nat.sub_self,
        eraseIdx_cons_zero] at herase

/-- The loop that adds overlays pushes them in turn. -/
theorem addOverlays_spec (added : BitVec 8) {ks : List ℕ} (hks : ∀ k ∈ ks, k < 8)
    (h : Packs order (l.map (· + 1)))
    (hfits : 4 * ((ks.filter (added.getLsbD ·)).length + l.length) ≤ 32) :
    Packs (ks.foldl (fun (order : BitVec 32) k =>
        if added.getLsbD k then (order <<< 4) ||| BitVec.ofNat 32 (k + 1) else order) order)
      (((ks.filter (added.getLsbD ·)).reverse ++ l).map (· + 1)) := by
  induction ks generalizing l order with
  | nil => simpa using h
  | cons k ks ih =>
    have hk := hks k mem_cons_self
    have hks' : ∀ k ∈ ks, k < 8 := fun k hk => hks k (mem_cons_of_mem _ hk)
    rw [foldl_cons]
    by_cases hadd : added.getLsbD k = true
    · rw [filter_cons_of_pos (by simpa using hadd)] at hfits ⊢
      simp only [length_cons] at hfits
      have hpush := h.push (d := k + 1) (by omega) (by rw [length_map]; omega)
      have hstep := ih hks' (l := k :: l) (by simpa using hpush) (by simp; omega)
      rw [if_pos hadd]
      simpa using hstep
    · rw [filter_cons_of_neg (by simpa using hadd)] at hfits ⊢
      rw [if_neg hadd]
      exact ih hks' h hfits

/-- **`machine_update_overlays` keeps the order of activation**, unless an overlay is
enabled that the format does not have. -/
theorem StackOk.update {km : XkbKeymap} {sm : XkbMachine} (h : StackOk mask sm.overlays l)
    (hfit : ∀ i ∈ l, i < formatMaxOverlays km.format) :
    StackOk (overlaysFromControls sm.base.components.controls)
      (machineUpdateOverlays km sm).overlays
      (recency l (overlaysFromControls sm.base.components.controls)) := by
  unfold machineUpdateOverlays
  dsimp only
  generalize overlaysFromControls sm.base.components.controls = new
  have hlt : ∀ i ∈ l, i < 8 := fun i hi => lt_of_getLsbD ((h.mem i).mp hi)
  have hold : ∀ i, sm.overlays.enabled.getLsbD i = l.contains i := by
    intro i
    rw [h.enabled, Bool.eq_iff_iff, contains_iff_mem]
    exact (h.mem i).symm
  have hrest : ∀ i ∈ l, i < 8 ∧ (new &&& ~~~sm.overlays.enabled).getLsbD i = false := by
    intro i hi
    refine ⟨hlt i hi, ?_⟩
    rw [getLsbD_and, getLsbD_not, hold, contains_iff_mem.mpr hi]
    simp
  have hlen : l.length ≤ 16 := le_trans (length_le_of_nodup h.nodup hlt) (by decide)
  obtain ⟨order, hremove, hpacks⟩ := removeOverlays_spec new hrest hlen []
    (by simpa using length_le_of_nodup h.nodup hfit) h.packs
  rw [length_nil] at hremove
  rw [hremove]
  dsimp only
  have hfilter : ((List.range 8).filter ((new &&& ~~~sm.overlays.enabled).getLsbD ·)) =
      (List.range 8).filter fun i => new.getLsbD i && !l.contains i := by
    refine filter_congr fun i hi => ?_
    rw [getLsbD_and, getLsbD_not, hold]
    simp [mem_range.mp hi]
  have hnodup := nodup_recency h.nodup new
  have hlength : (recency l new).length ≤ 8 :=
    length_le_of_nodup hnodup fun i hi => lt_of_getLsbD ((mem_recency l new i).mp hi)
  refine ⟨?_, rfl, hnodup, mem_recency l new⟩
  have hadd := addOverlays_spec (new &&& ~~~sm.overlays.enabled)
    (fun k hk => mem_range.mp hk) hpacks (by
      rw [hfilter]
      simp only [recency, length_append, length_reverse] at hlength
      simpa using Nat.mul_le_mul_left 4 hlength)
  rw [hfilter] at hadd
  exact hadd

/-- The controls of a machine change, and its overlays follow. -/
def followControls (km : XkbKeymap) (sm : XkbMachine) (controls : BitVec 32) : XkbMachine :=
  machineUpdateOverlays km { sm with base := { sm.base with components.controls := controls } }

/-- The enabled overlays after changes of the controls, the latest first. -/
def overlayHistory (cs : List (BitVec 32)) : List ℕ :=
  cs.foldl (fun l controls => recency l (overlaysFromControls controls)) []

/-- The controls enable only overlays that the format has. -/
def FitsOverlays (format : KeymapFormat) (controls : BitVec 32) : Prop :=
  ∀ i < 8, (overlaysFromControls controls).getLsbD i = true → i < formatMaxOverlays format

theorem stackOk_followControls (km : XkbKeymap) (builder : XkbMachineBuilder)
    {cs : List (BitVec 32)} (hfit : ∀ c ∈ cs, FitsOverlays km.format c) :
    StackOk (cs.getLast?.elim 0#8 overlaysFromControls)
      (cs.foldl (followControls km) (xkbMachineNew km builder)).overlays (overlayHistory cs) := by
  induction cs using reverseRecOn with
  | nil => exact ⟨packs_zero, rfl, nodup_nil, by simp [overlayHistory]⟩
  | append_singleton cs c ih =>
    have ih := ih fun c' hc' => hfit c' (mem_append_left _ hc')
    have hlow : ∀ i ∈ overlayHistory cs, i < formatMaxOverlays km.format := by
      intro i hi
      have hbit := (ih.mem i).mp hi
      cases hlast : cs.getLast? with
      | none => simp [hlast] at hbit
      | some c' =>
        rw [hlast] at hbit
        exact hfit c' (mem_append_left _ (mem_of_getLast? hlast)) i (lt_of_getLsbD hbit) hbit
    rw [getLast?_concat, overlayHistory, foldl_append, foldl_append]
    generalize cs.foldl (followControls km) (xkbMachineNew km builder) = sm at ih ⊢
    have hstack :
        StackOk _ ({ sm with base.components.controls := c } : XkbMachine).overlays _ := ih
    exact hstack.update hlow

/-- **The stack is a faithful history of the overlays**, for every sequence of controls that the
machine follows: its nibbles are the enabled overlays, each once; those that one change enables
come first, the higher ones before the lower ones, and those that stay enabled keep their order.
The format must have the overlays that are enabled. -/
theorem overlay_stack_history (km : XkbKeymap) (builder : XkbMachineBuilder)
    (cs : List (BitVec 32)) (c : BitVec 32) (hfit : ∀ c' ∈ cs ++ [c], FitsOverlays km.format c') :
    Packs ((cs ++ [c]).foldl (followControls km) (xkbMachineNew km builder)).overlays.order
        ((overlayHistory (cs ++ [c])).map (· + 1)) ∧
      (overlayHistory (cs ++ [c])).Nodup ∧
      (∀ i, i ∈ overlayHistory (cs ++ [c]) ↔ (overlaysFromControls c).getLsbD i = true) ∧
      ∃ new, overlayHistory (cs ++ [c]) =
          new ++ (overlayHistory cs).filter ((overlaysFromControls c).getLsbD ·) ∧
        new.Pairwise (· > ·) ∧ ∀ i ∈ new, i ∉ overlayHistory cs := by
  have hstack := stackOk_followControls km builder hfit
  have hlist : overlayHistory (cs ++ [c]) =
      recency (overlayHistory cs) (overlaysFromControls c) := by
    rw [overlayHistory, foldl_append, foldl_cons, foldl_nil, overlayHistory]
  refine ⟨hstack.packs, hstack.nodup, fun i => ?_, _, hlist, ?_, fun i hi => ?_⟩
  · rw [hstack.mem, getLast?_concat]
    rfl
  · exact pairwise_reverse.mpr (pairwise_lt_range.filter _)
  · simp only [mem_reverse, mem_filter, Bool.and_eq_true, Bool.not_eq_true',
      contains_eq_mem, decide_eq_false_iff_not] at hi
    exact hi.2.2

/-- The first overlay, and then the second one too. -/
theorem overlay_stack_history_two :
    overlayHistory ([2#32] ++ [6#32]) = [1, 0] ∧
      Packs (([2#32] ++ [6#32]).foldl (followControls {}) (xkbMachineNew {} {})).overlays.order
        ((overlayHistory ([2#32] ++ [6#32])).map (· + 1)) := by
  have hfit : ∀ c ∈ [2#32] ++ [6#32], FitsOverlays .textV1 c := by
    rw [forall_mem_append, forall_mem_singleton, forall_mem_singleton]
    unfold FitsOverlays
    decide +kernel
  have h := overlay_stack_history {} {} [2#32] 6#32 hfit
  exact ⟨by decide +kernel, h.1⟩

/-- The search of the stack finds the overlay of the key that was enabled last. -/
theorem findOverlay_spec {overlays : BitVec 8} (hfuel : l.length ≤ fuel) {stack : BitVec 32}
    (h : Packs stack (l.map (· + 1))) :
    findOverlay overlays fuel stack = l.find? (overlays.getLsbD ·) := by
  induction l generalizing fuel stack with
  | nil =>
    cases fuel with
    | zero => rfl
    | succ fuel =>
      rw [findOverlay, if_pos (h.eq_zero_iff.mpr rfl)]
      rfl
  | cons i l ih =>
    obtain ⟨fuel, rfl⟩ : ∃ n, fuel = n + 1 := ⟨fuel - 1, by simp at hfuel; omega⟩
    have hdigit : (stack &&& 0xf#32).toNat = i + 1 := by
      have hzero := h.digit (n := 0) (by omega)
      simpa using hzero
    rw [findOverlay, if_neg (by rw [h.eq_zero_iff]; simp), hdigit, Nat.add_sub_cancel]
    dsimp only
    by_cases hi : overlays.getLsbD i = true
    · rw [if_pos hi, find?_cons_of_pos (by simpa using hi)]
    · rw [if_neg hi, find?_cons_of_neg (by simpa using hi)]
      exact ih (by simpa using hfuel) h.pop

/-! ### The target of a key -/

/-- **The target of a key**: the one in the overlay of the key that was enabled last, or the
key itself. -/
def recentTarget (l : List ℕ) (k : KeyRef) : KeyAddr :=
  match l.find? (k.key.overlays.getLsbD ·) with
  | none => k.addr
  | some overlay => overlayKey k.key overlay

/-- The target that `process_overlayable_key` takes for a key that was up. -/
def newTarget (overlays : MachineOverlays) (k : KeyRef) : KeyAddr :=
  if k.key.overlays &&& overlays.enabled = 0#8 then k.addr
  else match findOverlay k.key.overlays 8 overlays.order with
    | none => k.addr
    | some overlay => overlayKey k.key overlay

theorem StackOk.newTarget_eq {overlays : MachineOverlays} (h : StackOk mask overlays l)
    (k : KeyRef) :
    newTarget overlays k = recentTarget l k := by
  have hlength : l.length ≤ 8 :=
    length_le_of_nodup h.nodup fun i hi => lt_of_getLsbD ((h.mem i).mp hi)
  rw [newTarget, findOverlay_spec hlength h.packs]
  split
  · rename_i hzero
    -- no enabled overlay has the key, so the search would not find one
    have hnone : l.find? (k.key.overlays.getLsbD ·) = none := by
      refine find?_eq_none.mpr fun i hi hbit => ?_
      have hboth : (k.key.overlays &&& overlays.enabled).getLsbD i = true := by
        rw [getLsbD_and, hbit, h.enabled, (h.mem i).mp hi, Bool.and_self]
      rw [hzero] at hboth
      simp at hboth
    rw [recentTarget, hnone]
  · rfl

/-! ### The table of the keys that are down -/

/-- An entry that is in use. -/
def XkbOverlaidKey.busy (e : XkbOverlaidKey) : Bool := e.old != .null

/-- An entry in use of the table. -/
def InTable (keys : List XkbOverlaidKey) (e : XkbOverlaidKey) : Prop :=
  ∃ i, Slots.busyAt XkbOverlaidKey.busy keys i = some e

/-- A key has one entry at most. -/
def TableOk (keys : List XkbOverlaidKey) : Prop :=
  ∀ i j e e', Slots.busyAt XkbOverlaidKey.busy keys i = some e →
    Slots.busyAt XkbOverlaidKey.busy keys j = some e' → e.old = e'.old → i = j

theorem TableOk.eq {keys : List XkbOverlaidKey} (h : TableOk keys) {e' : XkbOverlaidKey}
    (he : InTable keys e) (he' : InTable keys e') (hold : e.old = e'.old) : e = e' := by
  obtain ⟨i, hi⟩ := he
  obtain ⟨j, hj⟩ := he'
  obtain rfl := h i j e e' hi hj hold
  exact some.inj (hi.symm.trans hj)

/-- **What an event of a key does to the table**, and the target of the key. -/
inductive TableTurn (o : MachineOverlays) (k : KeyRef) :
    KeyDirection → List XkbOverlaidKey → KeyAddr → Prop
  /-- The key is in the table. Its entry counts the event, and is free when the count drops to
  zero. -/
  | held {dir : KeyDirection} {keys : List XkbOverlaidKey} {e : XkbOverlaidKey}
      (he : InTable o.keys e) (hold : e.old = k.addr)
      (htable : ∀ e', InTable keys e' ↔
        (InTable o.keys e' ∧ e'.old ≠ k.addr) ∨ (e' = e.count dir ∧ e'.busy = true)) :
      TableTurn o k dir keys e.new
  /-- The first press of a key. -/
  | first {keys : List XkbOverlaidKey} (hnone : ∀ e, InTable o.keys e → e.old ≠ k.addr)
      (htable : ∀ e', InTable keys e' ↔ InTable o.keys e' ∨ e' = ⟨k.addr, newTarget o k, 1⟩) :
      TableTurn o k .down keys (newTarget o k)
  /-- An event of a key that is up. -/
  | stray {dir : KeyDirection} {keys : List XkbOverlaidKey}
      (hnone : ∀ e, InTable o.keys e → e.old ≠ k.addr) (hdir : dir ≠ .down)
      (hkeys : keys = o.keys) : TableTurn o k dir keys k.addr

/-- Counting keeps the key of an entry that stays in use. -/
theorem count_old {dir : KeyDirection} (h : (e.count dir).busy = true) :
    (e.count dir).old = e.old := by
  unfold XkbOverlaidKey.count at h ⊢
  unfold XkbOverlaidKey.busy at h
  dsimp only at h ⊢
  split at h <;> simp_all

section Turn

variable {o : MachineOverlays} {k : KeyRef}

/-- The entry of a key is rewritten. -/
theorem tableTurn_held (h : TableOk o.keys) (hk : k.addr ≠ .null) (dir : KeyDirection) {i : ℕ}
    (he : o.keys[i]? = some e) (hold : e.old = k.addr) :
    TableTurn o k dir (o.keys.set i (e.count dir)) e.new ∧
      TableOk (o.keys.set i (e.count dir)) := by
  have hbusy : busyAt busy o.keys i = some e :=
    busyAt_eq_some_iff.mpr ⟨he, by simpa [busy, hold] using hk⟩
  have hset : ∀ j, busyAt busy (o.keys.set i (e.count dir)) j =
      if j = i then (some (e.count dir)).filter busy
      else busyAt busy o.keys j := fun _ => busyAt_set (lt_length_of_busyAt hbusy)
  -- an entry of another slot is of another key
  have hother : ∀ j e', j ≠ i → busyAt busy o.keys j = some e' →
      e'.old ≠ k.addr := fun j e' hj he' heq => hj (h j i e' e he' hbusy (heq.trans hold.symm))
  have hnew : ∀ e', (some (e.count dir)).filter busy = some e' →
      e' = e.count dir ∧ e'.busy = true ∧ e'.old = k.addr := by
    intro e' he'
    obtain ⟨heq, hb⟩ := filter_eq_some_iff.mp he'
    obtain rfl := some.inj heq
    exact ⟨rfl, hb, (count_old hb).trans hold⟩
  refine ⟨.held ⟨i, hbusy⟩ hold fun e' => ⟨?_, ?_⟩, ?_⟩
  · rintro ⟨j, hj⟩
    rw [hset] at hj
    split at hj
    · obtain ⟨heq, hb, -⟩ := hnew e' hj
      exact .inr ⟨heq, hb⟩
    · rename_i hji
      exact .inl ⟨⟨j, hj⟩, hother j e' hji hj⟩
  · rintro (⟨⟨j, hj⟩, hne⟩ | ⟨rfl, hb⟩)
    · refine ⟨j, ?_⟩
      rw [hset, if_neg, hj]
      rintro rfl
      obtain rfl := some.inj (hbusy.symm.trans hj)
      exact hne hold
    · refine ⟨i, ?_⟩
      rw [hset, if_pos rfl, filter_some, if_pos hb]
  · intro j j' e₁ e₂ h₁ h₂ heq
    rw [hset] at h₁ h₂
    split at h₁ <;> split at h₂
    · omega
    · exact absurd (heq.symm.trans (hnew e₁ h₁).2.2) (hother j' e₂ ‹_› h₂)
    · exact absurd (heq.trans (hnew e₂ h₂).2.2) (hother j e₁ ‹_› h₁)
    · exact h j j' e₁ e₂ h₁ h₂ heq

/-- A key gets the first free entry. -/
theorem tableTurn_first (h : TableOk o.keys) (hk : k.addr ≠ .null)
    (hnone : ∀ e, InTable o.keys e → e.old ≠ k.addr) :
    TableTurn o k .down (put o.keys (firstFree busy o.keys)
        ⟨k.addr, newTarget o k, 1⟩) (newTarget o k) ∧
      TableOk (put o.keys (firstFree busy o.keys) ⟨k.addr, newTarget o k, 1⟩) := by
  have hb : (⟨k.addr, newTarget o k, 1⟩ : XkbOverlaidKey).busy = true := by
    simpa [busy] using hk
  have hput : ∀ j, busyAt busy (put o.keys
      (firstFree busy o.keys) ⟨k.addr, newTarget o k, 1⟩) j =
      if j = firstFree busy o.keys then some ⟨k.addr, newTarget o k, 1⟩
      else busyAt busy o.keys j := by
    intro j
    rw [busyAt_put firstFree_le_length, filter_some, if_pos hb]
  have hfree : busyAt busy o.keys (firstFree busy o.keys) = none := busyAt_firstFree
  refine ⟨.first hnone fun e' => ⟨?_, ?_⟩, ?_⟩
  · rintro ⟨j, hj⟩
    rw [hput] at hj
    split at hj
    · exact .inr (some.inj hj).symm
    · exact .inl ⟨j, hj⟩
  · rintro (⟨j, hj⟩ | rfl)
    · refine ⟨j, ?_⟩
      rw [hput, if_neg, hj]
      rintro rfl
      cases hj.symm.trans hfree
    · exact ⟨_, by rw [hput, if_pos rfl]⟩
  · intro j j' e₁ e₂ h₁ h₂ heq
    rw [hput] at h₁ h₂
    split at h₁ <;> split at h₂
    · omega
    · obtain rfl := some.inj h₁
      exact absurd heq.symm (hnone e₂ ⟨j', h₂⟩)
    · obtain rfl := some.inj h₂
      exact absurd heq (hnone e₁ ⟨j, h₁⟩)
    · exact h j j' e₁ e₂ h₁ h₂ heq

/-- **`process_overlayable_key`** makes a turn of its key, and leaves the stack alone. -/
theorem tableTurn_processOverlayableKey (h : TableOk o.keys) (hk : k.addr ≠ .null)
    (dir : KeyDirection) :
    TableTurn o k dir (processOverlayableKey o k dir).1.keys (processOverlayableKey o k dir).2 ∧
      TableOk (processOverlayableKey o k dir).1.keys ∧
      (processOverlayableKey o k dir).1.order = o.order ∧
      (processOverlayableKey o k dir).1.enabled = o.enabled := by
  unfold processOverlayableKey
  dsimp only
  split
  · rename_i e he
    have hold : e.old = k.addr := by
      have hlt := (List.getElem?_eq_some_iff.mp he).1
      have hfound := findIdx_getElem (w := hlt)
      rw [(List.getElem?_eq_some_iff.mp he).2] at hfound
      simpa using hfound
    obtain ⟨hturn, hok⟩ := tableTurn_held h hk dir he hold
    exact ⟨hturn, hok, rfl, rfl⟩
  · rename_i hend
    have hnone : ∀ e, InTable o.keys e → e.old ≠ k.addr := by
      rintro e ⟨i, hi⟩ hold
      have hlt := findIdx_lt_length_of_exists (p := fun e => decide (e.old = k.addr))
        ⟨e, mem_of_busyAt hi, by simpa using hold⟩
      have := List.getElem?_eq_none_iff.mp hend
      omega
    split
    · rename_i hdir
      obtain rfl := hdir
      have hfree : (o.keys.findIdx fun e => decide (e.old = .null)) = firstFree busy o.keys := by
        unfold firstFree busy
        congr 1
        funext e
        by_cases he : e.old = .null <;> simp [he]
      obtain ⟨hturn, hok⟩ := tableTurn_first h hk hnone
      rw [hfree]
      exact ⟨hturn, hok, rfl, rfl⟩
    · exact ⟨.stray hnone ‹_› rfl, h, rfl, rfl⟩

end Turn

end Xkbcommon
