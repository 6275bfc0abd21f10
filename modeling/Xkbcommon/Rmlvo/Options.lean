import Xkbcommon.Lib.Outcome
import Xkbcommon.Rmlvo.Matcher

/-!
# Matching options

A rule with an option field is tried against all the options at once. Each option that matches
covers the layouts it is for, an option for all layouts covers every layout, and what is not
covered in the end is not a candidate any more (`matcher_rule_match_option`). The loop takes the
options in their order and stops as soon as all is covered, but what it finds does not depend on
the order: `Xkbcommon.matchOptions_eq` says which layouts are left, one by one.

The marks that tell what each option was matched for do depend on it. All that is ever asked of
them is `Xkbcommon.MarksFit`.
-/

namespace Xkbcommon

open Outcome List Masks

variable {groups : List Group} {options : List MatchedSval} {marks : List (BitVec 32)}
  {val : MlvoMatch} {candidates unmatched : BitVec 32} {i : ℕ} {r : FieldMatch} {names : RuleNames}
  {mp : Mapping}

/-! ### Matching one value -/

/-- Whether a group is there does not depend on what is searched for in it. -/
theorem matchGroup_cases (name : List UInt8) :
    (∀ value, matchGroup groups name value = .error .unmapped) ∨
      ∃ p : List UInt8 → Bool, ∀ value, matchGroup groups name value = .ok (p value) := by
  induction groups with
  | nil => exact .inr ⟨fun _ => false, fun _ => rfl⟩
  | cons group groups ih =>
    by_cases hlen : group.name.length = name.length
    · by_cases hmapped : group.mapped = false
      · left
        intro value
        rw [matchGroup, if_pos hlen, if_pos hmapped]
      · by_cases hname : group.name = name
        · refine .inr ⟨fun value => group.elements.contains value, fun value => ?_⟩
          rw [matchGroup, if_pos hlen, if_neg hmapped, if_pos hname]
        · simpa only [matchGroup, if_pos hlen, if_neg hmapped, if_neg hname] using ih
    · simpa only [matchGroup, if_neg hlen] using ih

/-- **A pattern faults on every value or is a test of values.** -/
theorem matchValue_cases (groups : List Group) (val : MlvoMatch) (wildcard : WildcardMatch) :
    (∀ input, matchValue groups val wildcard input = .error .unmapped) ∨
      ∃ p : List UInt8 → Bool, ∀ input, matchValue groups val wildcard input = .ok (p input) := by
  cases val with
  | group name => exact matchGroup_cases name
  | normal value | wildcardLegacy | wildcardNone | wildcardSome | wildcardAny =>
    exact .inr ⟨_, fun _ => rfl⟩

/-! ### The loop over the options -/

/-- An option covers a layout. -/
def MatchedSval.covers (option : MatchedSval) (i : ℕ) : Bool :=
  option.layouts == optionLayoutMaskGlobal || option.layouts.getLsbD i

theorem getLsbD_matchableLayouts (option : MatchedSval) (unmatched : BitVec 32) (hi : i < 32) :
    (unmatched &&& ~~~matchableLayouts option unmatched).getLsbD i =
      (unmatched.getLsbD i && !option.covers i) := by
  rw [matchableLayouts, MatchedSval.covers]
  split
  · rename_i hne
    simp only [BitVec.getLsbD_and, BitVec.getLsbD_not, hi, decide_true, Bool.true_and,
      beq_eq_false_iff_ne.mpr hne, Bool.false_or]
    cases unmatched.getLsbD i <;> simp
  · rename_i hglobal
    simp only [BitVec.getLsbD_and, BitVec.getLsbD_not, hi, decide_true, Bool.true_and,
      BitVec.getLsbD_allOnes, beq_iff_eq.mpr (not_not.mp hglobal), Bool.true_or]

/-- An option that cannot be matched covers nothing that is unmatched. -/
theorem covers_eq_false {option : MatchedSval} (h : matchableLayouts option unmatched = 0#32)
    (hi : unmatched.getLsbD i = true) : option.covers i = false := by
  have hlt := BitVec.lt_of_getLsbD hi
  have hbit := getLsbD_matchableLayouts option unmatched hlt
  rw [h, BitVec.getLsbD_and, BitVec.getLsbD_not, BitVec.getLsbD_zero, hi,
    decide_eq_true hlt] at hbit
  simpa using hbit.symm

/-- **What the loop finds**: whether an option matched that could, and which layouts no option
that matched covers. -/
theorem matchOptions_eq {p : List UInt8 → Bool}
    (hp : ∀ input, matchValue groups val .all input = .ok (p input)) (unmatched : BitVec 32) :
    Returns (matchOptions groups val options unmatched) fun r =>
      r.1 = options.any (fun o => p o.sval && matchableLayouts o unmatched != 0#32) ∧
      ∀ i < 32, r.2.1.getLsbD i =
        (unmatched.getLsbD i && !options.any fun o => p o.sval && o.covers i) := by
  induction options generalizing unmatched with
  | nil => exact .ok ⟨rfl, fun i _ => by simp⟩
  | cons option options ih =>
    rw [matchOptions]
    dsimp only
    -- an option that is passed over changes neither of the two
    have hskip : (p option.sval && matchableLayouts option unmatched != 0#32) = false →
        Returns ((matchOptions groups val options unmatched).map fun r =>
          (false || r.1, r.2.1, 0#32 :: r.2.2)) fun r =>
            r.1 = (option :: options).any
              (fun o => p o.sval && matchableLayouts o unmatched != 0#32) ∧
            ∀ i < 32, r.2.1.getLsbD i = (unmatched.getLsbD i &&
              !(option :: options).any fun o => p o.sval && o.covers i) := by
      intro hno
      refine Returns.map ((ih unmatched).mono fun r hr => ?_)
      refine ⟨by rw [any_cons, hno, hr.1], fun i hi => ?_⟩
      rw [hr.2 i hi, any_cons]
      cases hu : unmatched.getLsbD i with
      | false => rfl
      | true =>
        have hcov : (p option.sval && option.covers i) = false := by
          cases hp' : p option.sval with
          | false => rfl
          | true =>
            rw [hp', Bool.true_and, bne_eq_false_iff_eq] at hno
            exact covers_eq_false hno hu
        rw [hcov, Bool.false_or]
    split
    · rename_i hzero
      exact hskip (by rw [hzero, bne_self_eq_false, Bool.and_false])
    rename_i hne
    rw [hp]
    cases hhit : p option.sval with
    | false => exact hskip (by rw [hhit, Bool.false_and])
    | true =>
      dsimp only
      have hany : ∀ i < 32, ∀ b : Bool,
          ((unmatched &&& ~~~matchableLayouts option unmatched).getLsbD i && !b) =
            (unmatched.getLsbD i && !(p option.sval && option.covers i || b)) := by
        intro i hi b
        rw [getLsbD_matchableLayouts option unmatched hi, hhit]
        cases unmatched.getLsbD i <;> cases option.covers i <;> rfl
      have htrue : (option :: options).any
          (fun o => p o.sval && matchableLayouts o unmatched != 0#32) = true := by
        rw [any_cons, hhit, bne_iff_ne.mpr hne]
        rfl
      split
      · rename_i hleft
        refine .ok ⟨htrue.symm, fun i hi => ?_⟩
        rw [any_cons, ← hany i hi, hleft]
        simp
      · refine Returns.map ((ih _).mono fun r hr => ⟨htrue.symm, fun i hi => ?_⟩)
        rw [any_cons, ← hany i hi]
        exact hr.2 i hi

/-- A pattern that faults does so at the first option that can be matched. -/
theorem matchOptions_eq_of_unmapped
    (hval : ∀ input, matchValue groups val .all input = .error .unmapped)
    (options : List MatchedSval) (unmatched : BitVec 32) :
    (matchOptions groups val options unmatched).map (fun r => (r.1, r.2.1)) =
      if options.any fun o => matchableLayouts o unmatched != 0#32 then .error .unmapped
      else .ok (false, unmatched) := by
  induction options with
  | nil => rfl
  | cons option options ih =>
    rw [matchOptions, any_cons]
    dsimp only
    split
    · rename_i hzero
      rw [hzero, bne_self_eq_false, Bool.false_or, ← ih]
      cases matchOptions groups val options unmatched <;> rfl
    · rename_i hne
      rw [hval, bne_iff_ne.mpr hne]
      rfl

/-- **The order of the options does not matter**: neither to whether one matches, nor to what is
left unmatched. -/
theorem matchOptions_perm (groups : List Group) (val : MlvoMatch) {options' : List MatchedSval}
    (h : options.Perm options') (unmatched : BitVec 32) :
    Rel (fun r r' => r.1 = r'.1 ∧ r.2.1 = r'.2.1) (matchOptions groups val options unmatched)
      (matchOptions groups val options' unmatched) := by
  rcases matchValue_cases groups val .all with hval | ⟨p, hp⟩
  · have heq := matchOptions_eq_of_unmapped hval options unmatched
    have heq' := matchOptions_eq_of_unmapped hval options' unmatched
    rw [h.any_eq, ← heq'] at heq
    cases hx : matchOptions groups val options unmatched <;>
      cases hy : matchOptions groups val options' unmatched <;>
      simp_all [Except.map, Outcome.Rel]
  · obtain ⟨r, hr, hmatched, hleft⟩ := matchOptions_eq hp unmatched
    obtain ⟨r', hr', hmatched', hleft'⟩ := matchOptions_eq hp unmatched
    rw [hr, hr']
    refine ⟨by rw [hmatched, hmatched', h.any_eq], BitVec.eq_of_getLsbD_eq fun i hi => ?_⟩
    rw [hleft i hi, hleft' i hi, h.any_eq]

/-! ### The marks -/

/-- **The marks fit the options**: an option for some layouts has only been matched for them. -/
def MarksFit (options : List MatchedSval) (marks : List (BitVec 32)) : Prop :=
  List.Forall₂ (fun option mark =>
    option.layouts ≠ optionLayoutMaskGlobal → Masks.Sub mark option.layouts) options marks

theorem marksFit_zero : MarksFit options (options.map fun _ => 0#32) := by
  induction options with
  | nil => exact .nil
  | cons option options ih => exact .cons (fun _ => sub_zero_left _) ih

theorem MarksFit.addMarks {added : List (BitVec 32)} (h : MarksFit options marks)
    (hadded : added = [] ∨ MarksFit options added) :
    MarksFit options (Xkbcommon.addMarks marks added) := by
  rw [Xkbcommon.addMarks]
  split
  · exact h
  · rename_i hne
    replace hadded := hadded.resolve_left hne
    clear hne
    induction h generalizing added with
    | nil => exact .nil
    | cons hmark _ ih =>
      cases hadded with
      | cons hnew hrest =>
        exact .cons (fun hlayouts => sub_or (hmark hlayouts) (hnew hlayouts)) (ih hrest)

theorem marksFit_of_matchOptions {r : Bool × BitVec 32 × List (BitVec 32)}
    (h : matchOptions groups val options unmatched = .ok r) : MarksFit options r.2.2 := by
  induction options generalizing unmatched r with
  | nil =>
    obtain rfl := Except.ok.inj h
    exact .nil
  | cons option options ih =>
    have hnext : ∀ {matched : Bool} {mark left : BitVec 32},
        (option.layouts ≠ optionLayoutMaskGlobal → Masks.Sub mark option.layouts) →
        (matchOptions groups val options left).map (fun r =>
          (matched || r.1, r.2.1, mark :: r.2.2)) = .ok r → MarksFit (option :: options) r.2.2 := by
      intro matched mark left hmark hr
      cases hx : matchOptions groups val options left with
      | error f => simp [hx, Except.map] at hr
      | ok r' =>
        rw [hx] at hr
        obtain rfl := Except.ok.inj hr
        exact .cons hmark (ih hx)
    have hmatchable : option.layouts ≠ optionLayoutMaskGlobal →
        Masks.Sub (matchableLayouts option unmatched) option.layouts := by
      intro hlayouts i hi
      rw [matchableLayouts, if_pos hlayouts, BitVec.getLsbD_and, Bool.and_eq_true] at hi
      exact hi.2
    rw [matchOptions] at h
    dsimp only at h
    split at h
    · exact hnext (fun _ => sub_zero_left _) h
    split at h
    · cases h
    · exact hnext (fun _ => sub_zero_left _) h
    · split at h
      · obtain rfl := Except.ok.inj h
        exact .cons hmatchable marksFit_zero
      · exact hnext hmatchable h

/-- The loop over the layouts marks no option. -/
theorem marks_of_matchLayouts {values : List (List UInt8)} {indices : List ℕ} {matched : Bool}
    (h : matchLayouts groups values val indices matched candidates = .ok r) : r.marks = [] := by
  induction indices generalizing matched candidates with
  | nil =>
    obtain rfl := Except.ok.inj h
    rfl
  | cons idx indices ih =>
    rw [matchLayouts] at h
    split at h
    · obtain rfl := Except.ok.inj h
      rfl
    split at h
    · split at h
      · cases h
      split at h
      · cases h
      · exact ih h
      · exact ih h
    · exact ih h

theorem marks_of_matchField {mlvo : RulesMlvo}
    (h : matchField names groups mp mlvo val candidates = .ok r) :
    r.marks = [] ∨ MarksFit names.options r.marks := by
  have hlayouts : ∀ {input : List (List UInt8)},
      matcherRuleMatchLayoutOrVariant groups mp input val candidates = .ok r → r.marks = [] := by
    intro input h
    rw [matcherRuleMatchLayoutOrVariant] at h
    split at h
    · cases h
    · exact marks_of_matchLayouts h
  cases mlvo with
  | model =>
    rw [matchField] at h
    cases hx : matchValue groups val .all names.model with
    | error f => simp [hx, Except.map] at h
    | ok b =>
      rw [hx] at h
      obtain rfl := Except.ok.inj h
      exact .inl rfl
  | layout | variant => exact .inl (hlayouts h)
  | option =>
    rw [matchField, matcherRuleMatchOption] at h
    split at h
    · cases h
    split at h
    · cases h
    · rename_i hx
      obtain rfl := Except.ok.inj h
      exact .inr (marksFit_of_matchOptions hx)

theorem marksFit_of_matchFields {fields : List (RulesMlvo × MlvoMatch)}
    {r : Option (BitVec 32) × List (BitVec 32)} (hmarks : MarksFit names.options marks)
    (h : matchFields names groups mp fields candidates marks = .ok r) :
    MarksFit names.options r.2 := by
  induction fields generalizing candidates marks with
  | nil =>
    obtain rfl := Except.ok.inj h
    exact hmarks
  | cons field fields ih =>
    rw [matchFields] at h
    split at h
    · cases h
    · rename_i r' hr'
      have hadded := hmarks.addMarks (marks_of_matchField hr')
      split at h
      · exact ih hadded h
      · obtain rfl := Except.ok.inj h
        exact hadded

/-- The assertion on the options at the end. -/
theorem marksOk_of_marksFit (h : MarksFit options marks) :
    (zipWith marksOk options marks).all id = true := by
  induction h with
  | nil => rfl
  | @cons option mark options marks hmark _ ih =>
    rw [zipWith_cons_cons, all_cons, ih, Bool.and_true, id_eq]
    by_contra hc
    simp only [marksOk, Bool.or_eq_true, not_or, Bool.not_eq_true, beq_eq_false_iff_ne,
      anyBit_eq_false_iff] at hc
    obtain ⟨⟨-, hlayouts⟩, hne⟩ := hc.1
    refine hne (BitVec.eq_of_getLsbD_eq fun i hi => ?_)
    have hbit := congrArg (fun x => x.getLsbD i) hc.2
    simp only [BitVec.getLsbD_and, BitVec.getLsbD_not, hi, decide_true, Bool.true_and,
      BitVec.getLsbD_zero, Bool.and_eq_false_iff, Bool.not_eq_false'] at hbit
    have hsub := hmark hlayouts i
    cases hl : option.layouts.getLsbD i <;> cases hk : mark.getLsbD i <;> simp_all

end Xkbcommon
