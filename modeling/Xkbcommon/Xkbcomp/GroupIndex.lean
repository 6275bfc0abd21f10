import Xkbcommon.Xkbcomp.Arith
import Xkbcommon.Xkbcomp.Symbols

/-!
# Explicit group indices

Where a statement gives the index of a group, as `symbols[2]` or `name[1]` do, the array is grown
to have an entry for it. The index is evaluated by `Xkbcommon.Xkbcomp.exprResolveGroup`, which is
also used for relative groups, and therefore accepts 0. Layouts are counted from 1: the decrement
of 0 is the largest `uint32_t`, and the size that the array is grown to overflows to 0.

All other indices are safe (`Xkbcommon.Xkbcomp.safeAccess_growFor`).
-/

namespace Xkbcommon.Xkbcomp

open List

/-! ### Accesses -/

/-- **A safe access** to an array that was grown for it. -/
structure SafeAccess {α : Type} (maxGroups : ℕ) (before after : List α) (ndx : ℕ) : Prop where
  lt_maxGroups : ndx < maxGroups
  lt_length : ndx < after.length
  /-- Nothing is lost. -/
  keeps : before <+: after

/-- The statements with an explicit group index. -/
inductive IndexedField
  | symbols | actions | type | name
  deriving DecidableEq, Repr

/-- The names that stand for a group in an index. -/
def groupLookup (info : KeymapInfo) : IdentLookup :=
  namedIntegerPatternLookup
    { word := ascii "Group", min := 1, max := info.maxGroups, entries := info.groupNames.index }

/-- **An index that is accepted is safe**: for the groups of a key, and for the group names. -/
def AccessesSafely (info : KeymapInfo) (syms : SymbolsInfo) (keyi : KeyInfo) (e : ExprDef) :
    IndexedField → Prop
  | .symbols => ∀ ndx groups, getGroupIndex info keyi.groups .syms (some e) = .ok (ndx, groups) →
    SafeAccess info.maxGroups keyi.groups groups ndx
  | .actions => ∀ ndx groups, getGroupIndex info keyi.groups .acts (some e) = .ok (ndx, groups) →
    SafeAccess info.maxGroups keyi.groups groups ndx
  | .type => ∀ ndx groups, explicitGroupIndex info keyi.groups e = .ok (ndx, groups) →
    SafeAccess info.maxGroups keyi.groups groups ndx
  | .name => ∀ group ndx,
    exprResolveGroup info.maxGroups info.groupNames false false e = .ok group →
    groupToUse syms.explicitGroup group = some ndx →
    SafeAccess info.maxGroups syms.groupNames (growFor none syms.groupNames ndx) ndx

/-! ### Growing the array -/

section Arrays

variable {α : Type} {zero : α} {items : List α} {maxGroups ndx group : ℕ}

theorem darrayResize0_of_le (h : items.length ≤ ndx) :
    darrayResize0 zero items ndx = items ++ List.replicate (ndx - items.length) zero := by
  rw [darrayResize0, take_of_length_le h]

theorem safeAccess_growFor (hndx : ndx < maxGroups) (hmax : maxGroups ≤ 32) :
    SafeAccess maxGroups items (growFor zero items ndx) ndx := by
  have hmod : (ndx + 1) % 0x100000000 = ndx + 1 := Nat.mod_eq_of_lt (by omega)
  unfold growFor
  split_ifs with hgrow
  · rw [hmod, darrayResize0_of_le (by omega)]
    refine ⟨hndx, ?_, prefix_append _ _⟩
    rw [length_append, length_replicate]
    omega
  · exact ⟨hndx, by omega, prefix_refl _⟩

theorem decrement_of_pos (hpos : 0 < group) (hle : group ≤ 32) : decrement group = group - 1 := by
  unfold decrement
  omega

theorem maxGroups_le (info : KeymapInfo) : info.maxGroups ≤ 32 := by
  unfold KeymapInfo.maxGroups formatMaxGroups
  cases info.format <;> decide

/-- The index 0 is out of the range of the groups. -/
theorem not_safeAccess_decrement_zero (hmax : maxGroups ≤ 32) {after : List α} :
    ¬SafeAccess maxGroups items after (decrement 0) := by
  rintro ⟨hlt, -, -⟩
  have : decrement 0 = 0xffffffff := rfl
  omega

theorem safeAccess_decrement_iff (hmax : maxGroups ≤ 32) (hgroup : group ≤ maxGroups) :
    SafeAccess maxGroups items (growFor zero items (decrement group)) (decrement group) ↔
      group ≠ 0 := by
  constructor
  · rintro hsafe rfl
    exact not_safeAccess_decrement_zero hmax hsafe
  · intro hne
    refine safeAccess_growFor ?_ hmax
    rw [decrement_of_pos (by omega) (by omega)]
    omega

end Arrays

/-! ### The index -/

section Index

variable {info : KeymapInfo} {syms : SymbolsInfo} {keyi : KeyInfo} {e : ExprDef} {group : ℕ}

/-- `ExprResolveGroup` checks the range of the value. -/
theorem exprResolveGroup_eq : exprResolveGroup info.maxGroups info.groupNames false false e =
    (exprResolveIntegerLookup (groupLookup info) e).bind fun result =>
      if result < 0 ∨ info.maxGroups < result then .error .failed else .ok result.toNat := rfl

/-- The groups that `ExprResolveGroup` accepts as an index are the values from 0 on. -/
theorem exprResolveGroup_eq_ok (he : LiteralsFit e) :
    exprResolveGroup info.maxGroups info.groupNames false false e = .ok group ↔
      Evaluates (groupLookup info) e group ∧ group ≤ info.maxGroups := by
  rw [exprResolveGroup_eq]
  constructor
  · intro h
    obtain ⟨v, hv, h⟩ := Outcome.bind_eq_ok h
    split_ifs at h with hrange
    cases h
    have hnat : (v.toNat : ℤ) = v := Int.toNat_of_nonneg (by omega)
    rw [hnat]
    exact ⟨he.evaluates hv, by omega⟩
  · rintro ⟨hv, hle⟩
    rw [hv.resolve]
    change (if (group : ℤ) < 0 ∨ (info.maxGroups : ℤ) < group then _ else _) = _
    rw [if_neg (by omega)]
    rfl

/-- An access to the groups of a key is safe exactly if the index does not have the value 0. -/
theorem explicitGroupIndex_safe_iff (info : KeymapInfo) (he : LiteralsFit e)
    (groups : List GroupInfo) :
    (∀ ndx groups', explicitGroupIndex info groups e = .ok (ndx, groups') →
        SafeAccess info.maxGroups groups groups' ndx) ↔
      ¬Evaluates (groupLookup info) e 0 := by
  have heq : explicitGroupIndex info groups e =
      (exprResolveGroup info.maxGroups info.groupNames false false e).bind fun group =>
        .ok (decrement group, growFor {} groups (decrement group)) := rfl
  rw [heq]
  constructor
  · intro hsafe hzero
    have hok := (exprResolveGroup_eq_ok he).mpr ⟨hzero, Nat.zero_le _⟩
    refine not_safeAccess_decrement_zero (maxGroups_le info)
      (hsafe (decrement 0) (growFor {} groups (decrement 0)) ?_)
    simp only [hok, Except.bind]
  · intro hzero ndx groups' h
    obtain ⟨group, hgroup, h⟩ := Outcome.bind_eq_ok h
    obtain ⟨rfl, rfl⟩ := Prod.mk.inj (Except.ok.inj h)
    obtain ⟨hvalue, hle⟩ := (exprResolveGroup_eq_ok he).mp hgroup
    refine (safeAccess_decrement_iff (maxGroups_le info) hle).mpr ?_
    rintro rfl
    exact hzero hvalue

/-- **Explicit group indices are safe unless they have the value 0.** The names of a section with
an explicit group are safe anyway. The explicit group is one that `HandleIncludeSymbols` accepts. -/
theorem group_index_safe_iff (info : KeymapInfo) (syms : SymbolsInfo) (keyi : KeyInfo)
    (hexplicit : ∀ g ∈ syms.explicitGroup, g < info.maxGroups) (e : ExprDef)
    (he : LiteralsFit e) (field : IndexedField) :
    AccessesSafely info syms keyi e field ↔
      ¬(Evaluates (groupLookup info) e 0 ∧ (field = .name → syms.explicitGroup = none)) := by
  have hkey := explicitGroupIndex_safe_iff info he keyi.groups
  cases field with
  | symbols | actions => simpa [AccessesSafely, getGroupIndex] using hkey
  | type => simpa [AccessesSafely] using hkey
  | name =>
    simp only [AccessesSafely, forall_const]
    constructor
    · rintro hsafe ⟨hzero, hnone⟩
      have hok := (exprResolveGroup_eq_ok he).mpr ⟨hzero, Nat.zero_le _⟩
      refine not_safeAccess_decrement_zero (maxGroups_le info) (hsafe 0 (decrement 0) hok ?_)
      simp only [hnone, groupToUse]
    · intro hcond group ndx hgroup huse
      obtain ⟨hvalue, hle⟩ := (exprResolveGroup_eq_ok he).mp hgroup
      cases hsection : syms.explicitGroup with
      | none =>
        rw [hsection] at huse
        obtain rfl : decrement group = ndx := Option.some.inj huse
        refine (safeAccess_decrement_iff (maxGroups_le info) hle).mpr ?_
        rintro rfl
        exact hcond ⟨hvalue, hsection⟩
      | some explicitGroup =>
        -- the index is that of the section, whatever was written
        rw [hsection, groupToUse] at huse
        split_ifs at huse
        cases huse
        exact safeAccess_growFor (hexplicit _ hsection) (maxGroups_le info)

/-- `type[2]` in a section for the third layout, whose key has one group. -/
theorem group_index_safe_second :
    AccessesSafely plainInfo
      { explicitGroup := some 2, defaultActions := initActionsInfo plainInfo, mods := plainMods }
      { groups := [{}] } (.integer 2) .type := by
  have he : InInt64 2 := by decide
  refine (group_index_safe_iff _ _ _ ?_ (.integer 2) he _).mpr ?_
  · rintro g ⟨⟩
    decide
  · rintro ⟨hzero, -⟩
    have := hzero.resolve
    cases this

/-- `symbols[0]`: the group that the key has is lost, and the index is past the end. -/
theorem symbols_zero_unsafe :
    getGroupIndex plainInfo [{ definedSyms := true }] .syms (some (.integer 0)) =
      .ok (0xffffffff, []) := by
  rfl

end Index

end Xkbcommon.Xkbcomp
