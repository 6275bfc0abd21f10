import Xkbcommon.Compile
import Xkbcommon.KeyText
import Xkbcommon.Xkbcomp.KeyTypes

/-!
# Consumed modifiers

`key_get_consumed` of `src/state.c` has two modes. In the mode of XKB a key consumes the modifiers
of its type. In the mode of GTK it consumes those of the entries that change its keysyms, if they
are the current ones or a single modifier. What the current entry preserves is not consumed in
either mode.

The entries of a compiled type name modifiers of the type only
(`Xkbcommon.Xkbcomp.WellFormedType`), and resolving virtual modifiers keeps inclusions
(`Xkbcommon.sub_computeEffectiveMask`). So GTK mode never consumes more
(`Xkbcommon.keyGetConsumedGtk_sub`).
-/

namespace Xkbcommon

open Masks Xkbcomp BitVec List

variable {km : XkbKeymap} {key : XkbKey}

/-! ### The mode of GTK -/

/-- `one_bit_set`. -/
def oneBitSet (x : BitVec 32) : Bool := x != 0#32 && x &&& (x - 1#32) == 0#32

/-- `XkbLevelsSameSyms`. -/
def xkbLevelsSameSyms (a b : XkbLevel) : Bool := a.syms == b.syms

/-- Whether an entry changes the keysyms, and is the current one or a single modifier. -/
def changesSyms (group : XkbGroup) (active : BitVec 32) (entry : XkbKeyTypeEntry × ℕ) : Bool :=
  let isMatch (e : XkbKeyTypeEntry) := entryIsActive e && e.mods.mask == active
  let noModsLevel := ((getEntryForMods group.type 0#32).map (·.level)).getD 0
  entryIsActive entry.1 &&
    !xkbLevelsSameSyms (group.levels.getD entry.1.level {}) (group.levels.getD noModsLevel {}) &&
    (group.type.entries.findIdx? isMatch == some entry.2 || oneBitSet entry.1.mods.mask)

/-- `key_get_consumed`, in the mode `XKB_CONSUMED_MODE_GTK`. -/
def keyGetConsumedGtk (km : XkbKeymap) (state : XkbState) (key : XkbKey) : BitVec 32 :=
  match (keyOf km key.keycode).bind fun ref => stateKeyGetLayout state ref.key with
  | none => 0#32
  | some layout =>
    match key.groups[layout]? with
    | none => 0#32
    | some group =>
      let active := state.components.mods &&& group.type.mods.mask
      let preserve := ((getEntryForMods group.type active).map (·.preserve.mask)).getD 0#32
      let consumed := group.type.entries.zipIdx.foldl
        (fun consumed entry =>
          if changesSyms group active entry
          then consumed ||| (entry.1.mods.mask &&& ~~~entry.1.preserve.mask) else consumed)
        0#32
      consumed &&& ~~~preserve

/-! ### Inclusion -/

theorem sub_modMaskGetEffective {mods mods' : BitVec 32} (h : Sub mods mods') :
    Sub (modMaskGetEffective km mods) (modMaskGetEffective km mods') := by
  intro i hi
  refine (getLsbD_foldl_or _ _ _ _).mpr ?_
  rcases (getLsbD_foldl_or _ _ _ _).mp hi with hreal | ⟨mod, hmem, hmod, hmapping⟩
  · rw [getLsbD_and, Bool.and_eq_true] at hreal ⊢
    exact .inl ⟨h i hreal.1, hreal.2⟩
  · exact .inr ⟨mod, hmem, h mod.2 hmod, hmapping⟩

/-- Resolving modifiers keeps inclusions, also those of bits that are no modifier. -/
theorem sub_computeEffectiveMask {mods mods' : XkbMods} (h : Sub mods.mods mods'.mods) :
    Sub (computeEffectiveMask km mods).mask (computeEffectiveMask km mods').mask := by
  intro i hi
  simp only [computeEffectiveMask, getLsbD_or, getLsbD_and, Bool.or_eq_true,
    Bool.and_eq_true] at hi ⊢
  exact hi.imp (sub_modMaskGetEffective h i) fun hi => ⟨h i hi.1, hi.2⟩

/-- The masks of the entries of a type, active or not, are within that of the type. -/
theorem mask_updateKeyType_sub {type : XkbKeyType} {entry : XkbKeyTypeEntry}
    (h : ∀ entry ∈ type.entries, Sub entry.mods.mods type.mods.mods)
    (hentry : entry ∈ (updateKeyType km type).entries) :
    Sub entry.mods.mask (updateKeyType km type).mods.mask := by
  obtain ⟨entry, hmem, rfl⟩ := mem_map.mp hentry
  split
  · exact sub_zero_left _
  · exact sub_computeEffectiveMask (h entry hmem)

/-- **GTK mode consumes no more than XKB mode.** -/
theorem keyGetConsumedGtk_sub (info : KeymapInfo)
    (processIncludeFile : IncludeItem → Option (List Stmt)) (mods mods' : XkbModSet)
    (file : List Stmt) (types : List NamedKeyType)
    (hcompile : compileKeyTypes info processIncludeFile mods file = some (types, mods'))
    (km : XkbKeymap) (htypes : ∀ key ∈ km.keys, ∀ group ∈ key.groups,
      ∃ type ∈ types, group.type = type.toXkbKeyType)
    (state : XkbState) (hkey : key ∈ (updateDerivedKeymapFields km).keys) :
    Sub (keyGetConsumedGtk (updateDerivedKeymapFields km) state key)
      (keyGetConsumed (updateDerivedKeymapFields km) state key) := by
  rw [keyGetConsumedGtk, keyGetConsumed]
  rcases (keyOf (updateDerivedKeymapFields km) key.keycode).bind
    fun ref => stateKeyGetLayout state ref.key with _ | layout
  · exact .refl _
  · dsimp only
    rcases hgroup : key.groups[layout]? with _ | group
    · exact .refl _
    · intro i hi
      dsimp only at hi ⊢
      rw [getLsbD_and, Bool.and_eq_true] at hi ⊢
      refine ⟨?_, hi.2⟩
      rcases (getLsbD_foldl_or _ _ _ _).mp hi.1 with hzero | ⟨entry, hentry, -, hmask⟩
      · simp at hzero
      · obtain ⟨key, hmem, rfl⟩ := mem_map.mp hkey
        obtain ⟨group, hgroups, rfl⟩ := mem_map.mp (mem_of_getElem? hgroup)
        obtain ⟨type, htype, heq⟩ := htypes key hmem group hgroups
        have hwf : WellFormedType type.mods.mods type.numLevels type.entries := by
          rw [compileKeyTypes] at hcompile
          split_ifs at hcompile
          obtain ⟨rfl, -⟩ := Prod.mk.inj (Option.some.inj hcompile)
          exact wellFormed_copyKeyTypes info processIncludeFile mods file type htype
        rw [getLsbD_and, Bool.and_eq_true] at hmask
        refine mask_updateKeyType_sub (fun entry he => ?_) (fst_mem_of_mem_zipIdx hentry) i hmask.1
        rw [heq] at he ⊢
        exact (hwf.fits entry he).mods

/-- A key with a type and two levels, which are `a` and `A`. -/
def typedKeymap (type : XkbKeyType) : XkbKeymap where
  keys := [{ groups := [{ type, levels := [{ syms := [0x61] }, { syms := [0x41] }] }] }]
  mods := (List.range 8).map (BitVec.twoPow 32)
  numKeysLow := 1
  low_keycode kc hkc _ := by
    obtain rfl : kc = 0 := by omega
    rfl

/-- Shift is down, and the key has one of the compiled types. -/
theorem keyGetConsumedGtk_sub_shift :
    ∃ types mods', compileKeyTypes plainInfo vmodsFile builtinMods [includeStmt, unorderedType] =
        some (types, mods') ∧
      ∀ type ∈ types, ∀ key ∈ (updateDerivedKeymapFields (typedKeymap type.toXkbKeyType)).keys,
        Sub (keyGetConsumedGtk (updateDerivedKeymapFields (typedKeymap type.toXkbKeyType))
            { components := { mods := 1#32 } } key)
          (keyGetConsumed (updateDerivedKeymapFields (typedKeymap type.toXkbKeyType))
            { components := { mods := 1#32 } } key) := by
  obtain ⟨⟨types, mods'⟩, hcompile⟩ : ∃ compiled, compileKeyTypes plainInfo vmodsFile builtinMods
      [includeStmt, unorderedType] = some compiled :=
    Option.isSome_iff_exists.mp (by decide +kernel)
  refine ⟨types, mods', hcompile, fun type htype key hkey => ?_⟩
  refine keyGetConsumedGtk_sub _ _ _ _ _ types hcompile _ (fun key hkey group hgroup => ?_) _ hkey
  obtain rfl := mem_singleton.mp hkey
  obtain rfl := mem_singleton.mp hgroup
  exact ⟨type, htype, rfl⟩

end Xkbcommon
