import Mathlib.Data.BitVec

/-!
# Machine words read as sets

A mask is a machine word used as a finite set: bit `i` says whether `i` is a
member. The C idiom for “these two sets meet” is the truth value of `m & k`,
`Masks.anyBit`; the idiom for “everything in `m` is in `k`” is usually written
`(m & ~k) == 0`, and `Masks.Sub` is its meaning, bit by bit.

Everything here is stated through `BitVec.getLsbD`, so that a goal about masks
becomes a propositional goal about one bit.
-/

namespace Masks

variable {w : ℕ}

/-- The truth value of the C expression `m & k`: the two masks meet. -/
def anyBit (m k : BitVec w) : Bool := m &&& k != 0#w

variable (p : Prop) (m k : BitVec w) {i n : ℕ} {l : BitVec w}

theorem anyBit_iff : anyBit m k = true ↔ ∃ i, m.getLsbD i = true ∧ k.getLsbD i = true := by
  rw [anyBit, bne_iff_ne]
  constructor
  · intro h
    by_contra hcon
    refine h (BitVec.eq_of_getLsbD_eq fun i hi => ?_)
    rw [BitVec.getLsbD_and, BitVec.getLsbD_zero, Bool.and_eq_false_iff]
    by_contra hc
    simp only [not_or, Bool.not_eq_false] at hc
    exact hcon ⟨i, hc⟩
  · rintro ⟨i, hm, hk⟩ h
    have hi := congrArg (fun x => x.getLsbD i) h
    simp only [BitVec.getLsbD_and, hm, hk, BitVec.getLsbD_zero] at hi
    cases hi

theorem anyBit_eq_false_iff : anyBit m k = false ↔ m &&& k = 0#w := by
  rw [anyBit, bne_eq_false_iff_eq]

@[simp] theorem anyBit_zero_left : anyBit 0#w k = false := by simp [anyBit]

@[simp] theorem anyBit_zero_right : anyBit m 0#w = false := by simp [anyBit]

theorem anyBit_or_right : anyBit m (k ||| l) = (anyBit m k || anyBit m l) := by
  rw [Bool.eq_iff_iff, Bool.or_eq_true]
  simp only [anyBit_iff, BitVec.getLsbD_or, Bool.or_eq_true]
  constructor
  · rintro ⟨i, hm, hk | hl⟩
    · exact .inl ⟨i, hm, hk⟩
    · exact .inr ⟨i, hm, hl⟩
  · rintro (⟨i, hm, hk⟩ | ⟨i, hm, hl⟩)
    · exact ⟨i, hm, .inl hk⟩
    · exact ⟨i, hm, .inr hl⟩

theorem anyBit_comm : anyBit m k = anyBit k m := by
  rw [anyBit, anyBit, BitVec.and_comm]

theorem anyBit_or_left : anyBit (m ||| k) l = (anyBit m l || anyBit k l) := by
  rw [anyBit_comm, anyBit_or_right, anyBit_comm l m, anyBit_comm l k]

theorem anyBit_self_iff : anyBit m m = true ↔ m ≠ 0#w := by
  rw [anyBit, BitVec.and_self, bne_iff_ne]

/-- Shifting one by an index gives the mask of that index alone. -/
theorem getLsbD_one_shiftLeft (hi : i < w) (n : ℕ) : (1#w <<< n).getLsbD i = true ↔ i = n := by
  simp only [BitVec.getLsbD_shiftLeft, BitVec.getLsbD_one, Bool.and_eq_true, decide_eq_true_eq,
    Bool.not_eq_true', decide_eq_false_iff_not]
  omega

/-- The member that is added to a mask. -/
theorem getLsbD_or_one_shiftLeft (hn : n < w) (i : ℕ) :
    (m ||| 1#w <<< n).getLsbD i = true ↔ m.getLsbD i = true ∨ i = n := by
  rw [BitVec.getLsbD_or, Bool.or_eq_true]
  refine or_congr_right ⟨fun h => ?_, fun h => ?_⟩
  · exact (getLsbD_one_shiftLeft (BitVec.lt_of_getLsbD h) n).mp h
  · exact (getLsbD_one_shiftLeft (h ▸ hn) n).mpr h

theorem anyBit_one_shiftLeft (hn : n < w) : anyBit m (1#w <<< n) = m.getLsbD n := by
  rw [Bool.eq_iff_iff, anyBit_iff]
  constructor
  · rintro ⟨i, hm, hi⟩
    rwa [← (getLsbD_one_shiftLeft (BitVec.lt_of_getLsbD hm) n).mp hi]
  · intro h
    exact ⟨n, h, (getLsbD_one_shiftLeft hn n).mpr rfl⟩

/-- The mask of the bits below an index. -/
theorem getLsbD_lowMask {k : ℕ} (hk : k < w) (hi : i < w) :
    ((1#w <<< k) - 1#w).getLsbD i = decide (i < k) := by
  have hlt : 2 ^ k < 2 ^ w := Nat.pow_lt_pow_right (by omega) hk
  have hone : 1 ≤ 2 ^ k := Nat.one_le_two_pow
  have hle : 1#w ≤ 1#w <<< k := by
    rw [BitVec.le_def, BitVec.toNat_shiftLeft, BitVec.toNat_one (by omega), Nat.one_shiftLeft,
      Nat.mod_eq_of_lt hlt]
    exact hone
  have hnat : ((1#w <<< k) - 1#w).toNat = 2 ^ k - 1 := by
    rw [BitVec.toNat_sub_of_le hle, BitVec.toNat_shiftLeft, BitVec.toNat_one (by omega),
      Nat.one_shiftLeft, Nat.mod_eq_of_lt hlt]
  rw [← BitVec.testBit_toNat, hnat, Nat.testBit_two_pow_sub_one]

/-- Clearing flags does not matter to a test for other flags. -/
theorem anyBit_and_not {c k : BitVec w} (h : anyBit c k = false) (m : BitVec w) :
    anyBit (m &&& ~~~c) k = anyBit m k := by
  rw [anyBit_eq_false_iff] at h
  unfold anyBit
  congr 1
  refine BitVec.eq_of_getLsbD_eq fun i hi => ?_
  have hbit := congrArg (fun x => x.getLsbD i) h
  simp only [BitVec.getLsbD_and, BitVec.getLsbD_zero, BitVec.getLsbD_not, hi, decide_true,
    Bool.true_and] at hbit ⊢
  cases hk : k.getLsbD i with
  | false => simp
  | true =>
    rw [hk, Bool.and_true] at hbit
    simp [hbit]

/-! A C statement `if (p) mask |= m;` adds `m` or nothing. -/

theorem getLsbD_ite_zero [Decidable p] :
    (if p then m else 0#w).getLsbD i = true ↔ p ∧ m.getLsbD i = true := by
  split <;> simp_all

theorem anyBit_ite_zero [Decidable p] :
    anyBit m (if p then k else 0#w) = true ↔ p ∧ anyBit m k = true := by
  split <;> simp_all

theorem anyBit_ite_left [Decidable p] :
    anyBit (if p then m else 0#w) k = (decide p && anyBit m k) := by
  split <;> simp_all

/-- A loop that adds the masks of some items. -/
theorem getLsbD_foldl_or {α : Type*} (p : α → Bool) (f : α → BitVec w) (l : List α) :
    (l.foldl (fun mask a => if p a then mask ||| f a else mask) m).getLsbD i = true ↔
      m.getLsbD i = true ∨ ∃ a ∈ l, p a = true ∧ (f a).getLsbD i = true := by
  induction l generalizing m with
  | nil => simp
  | cons a l ih =>
    rw [List.foldl_cons, ih]
    by_cases hp : p a = true <;> simp [hp, or_assoc]

/-- **Inclusion of masks**: every bit of `m` is a bit of `k`. -/
def Sub (m k : BitVec w) : Prop := ∀ i, m.getLsbD i = true → k.getLsbD i = true

theorem Sub.refl : Sub m m := fun _ h => h

theorem Sub.trans {m k : BitVec w} (h : Sub m k) (h' : Sub k l) : Sub m l :=
  fun i hi => h' i (h i hi)

@[simp] theorem sub_zero_left : Sub 0#w k := fun i hi => by simp at hi

theorem sub_or {m k : BitVec w} (h : Sub m l) (h' : Sub k l) : Sub (m ||| k) l := fun i hi => by
  rw [BitVec.getLsbD_or, Bool.or_eq_true] at hi
  exact hi.elim (h i) (h' i)

theorem sub_or_left : Sub m (m ||| k) := fun i hi => by simp [hi]

theorem sub_or_right : Sub k (m ||| k) := fun i hi => by simp [hi]

theorem sub_and_left {m k : BitVec w} (h : Sub m l) : Sub (m &&& k) l := fun i hi => by
  rw [BitVec.getLsbD_and, Bool.and_eq_true] at hi
  exact h i hi.1

theorem sub_and_right {m k : BitVec w} (h : Sub k l) : Sub (m &&& k) l := fun i hi => by
  rw [BitVec.getLsbD_and, Bool.and_eq_true] at hi
  exact h i hi.2

/-- An included mask is not changed by masking. -/
theorem and_eq_of_sub {m k : BitVec w} (h : Sub m k) : m &&& k = m := by
  refine BitVec.eq_of_getLsbD_eq fun i _ => ?_
  rw [BitVec.getLsbD_and]
  cases hm : m.getLsbD i with
  | false => rfl
  | true => rw [h i hm]; rfl

/-- Nothing of an included mask lies outside. -/
theorem and_not_eq_of_sub {m k : BitVec w} (h : Sub m k) : m &&& ~~~k = 0#w := by
  refine BitVec.eq_of_getLsbD_eq fun i hi => ?_
  rw [BitVec.getLsbD_and, BitVec.getLsbD_not, BitVec.getLsbD_zero]
  cases hm : m.getLsbD i with
  | false => rfl
  | true => simp [h i hm]

/-- The inclusion as C code tests it. -/
theorem sub_iff_and_eq : Sub m k ↔ m &&& k = m := by
  refine ⟨and_eq_of_sub, fun h i hi => ?_⟩
  rw [← h, BitVec.getLsbD_and, Bool.and_eq_true] at hi
  exact hi.2

instance (m k : BitVec w) : Decidable (Sub m k) := decidable_of_iff _ (sub_iff_and_eq m k).symm

/-- Replacing the bits of a mask changes nothing exactly when they are the same. -/
theorem replace_eq_iff (mask new : BitVec w) :
    (m &&& ~~~mask) ||| (mask &&& new) = m ↔ mask &&& (new ^^^ m) = 0#w := by
  rw [BitVec.eq_of_getLsbD_eq_iff, BitVec.eq_of_getLsbD_eq_iff]
  refine forall_congr' fun i => forall_congr' fun hi => ?_
  simp only [BitVec.getLsbD_or, BitVec.getLsbD_and, BitVec.getLsbD_not, BitVec.getLsbD_xor, hi,
    decide_true, Bool.true_and, BitVec.getLsbD_zero]
  cases m.getLsbD i <;> cases mask.getLsbD i <;> cases new.getLsbD i <;> simp

end Masks
