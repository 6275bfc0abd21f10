import Xkbcommon.Lib.Masks
import Xkbcommon.Xkbcomp.Info

/-!
# Virtual modifiers

The sections of a keymap declare virtual modifiers (`src/xkbcomp/vmod.c`). An included file starts
with the modifiers of the one that includes it, *without their mappings*, and may declare further
ones; its modifiers are then merged back index by index (`MergeModSets`).

A set of modifiers is *valid* (`Xkbcommon.Xkbcomp.ValidMods`) if it fits in a mask, its names are
distinct, only virtual modifiers are marked as mapped and only those have a mapping. One set
*extends* another (`Xkbcommon.Xkbcomp.Extends`) if it declares further virtual modifiers after those
of the other: this is what makes the merge index by index meaningful, and what its assertions check.
The declaration of a modifier and the merge keep both.

The array of modifiers is the list of those that are defined. Where an assertion of `MergeModSets`
would fail, the definition here says nothing about the source;
`Xkbcommon.Xkbcomp.MergeModSetsAssertions` collects them.
-/

namespace Xkbcommon.Xkbcomp

open Masks List Option Function

variable {i vmod : ℕ} {mod : XkbMod} {mods : XkbModSet} {explicit : Bool} {mapping : BitVec 32}

/-! ### The source -/

/-- `XKB_MAX_MODS`. -/
def xkbMaxMods : ℕ := 32

/-- `InitVMods`. -/
def initVMods (mods : XkbModSet) (reset : Bool) : XkbModSet :=
  if reset then
    { mods := mods.mods.map fun mod => { mod with mapping := 0#32 }, explicitVmods := 0#32 }
  else mods

/-- A modifier with an index in the loop of `MergeModSets`; `explicit` says whether it is mapped
explicitly in the set that is merged. -/
def mergeMod (clobber explicit : Bool) (into : XkbModSet) (vmod : ℕ) (mod : XkbMod) : XkbModSet :=
  let mask := 1#32 <<< vmod
  if mod.type ≠ .virt then into
  else
    match into.mods[vmod]? with
    | none =>
      { mods := into.mods ++ [mod]
        explicitVmods := if explicit then into.explicitVmods ||| mask else into.explicitVmods }
    | some old =>
      if !explicit then into
      else if !into.explicitVmods.getLsbD vmod then
        { mods := into.mods.set vmod { old with mapping := mod.mapping }
          explicitVmods := into.explicitVmods ||| mask }
      else if mod.mapping ≠ old.mapping then
        { into with
          mods := into.mods.set vmod
            { old with mapping := if clobber then mod.mapping else old.mapping } }
      else into

/-- The loop of `MergeModSets`, from an index on. -/
def mergeMods (clobber : Bool) (source : XkbModSet) : ℕ → List XkbMod → XkbModSet → XkbModSet
  | _, [], into => into
  | vmod, mod :: mods, into =>
    mergeMods clobber source (vmod + 1) mods
      (mergeMod clobber (source.explicitVmods.getLsbD vmod) into vmod mod)

/-- `MergeModSets`. -/
def mergeModSets (merge : MergeMode) (into source : XkbModSet) : XkbModSet :=
  let merged := mergeMods (merge != .augment) source 0 source.mods into
  { merged with mods := merged.mods.take source.mods.length }

/-- The mapping of a virtual modifier that is declared again, in `HandleVModDef`. -/
def remapVMod (mods : XkbModSet) (merge : MergeMode) (vmod : ℕ) (mod : XkbMod)
    (mapping : BitVec 32) : XkbModSet :=
  let use :=
    if !mods.explicitVmods.getLsbD vmod then mapping
    else if merge ≠ .augment then mapping
    else mod.mapping
  { mods := mods.mods.set vmod { mod with mapping := use }
    explicitVmods := mods.explicitVmods ||| 1#32 <<< vmod }

/-- A new virtual modifier, in `HandleVModDef`. -/
def addVMod (mods : XkbModSet) (name : Atom) (mapping : BitVec 32) (explicit : Bool) : XkbModSet :=
  { mods := mods.mods ++ [{ name, type := .virt, mapping }]
    explicitVmods :=
      if explicit then mods.explicitVmods ||| 1#32 <<< mods.mods.length else mods.explicitVmods }

/-- `HandleVModDef`. -/
def handleVModDef (mods : XkbModSet) (stmt : VModDef) : Status × XkbModSet :=
  match stmt.value.elim (.ok 0#32) (exprResolveModMask mods .real) with
  | .error err => (.ofError err, mods)
  | .ok mapping =>
    match mods.mods.findIdx? (·.name == stmt.name) with
    | some vmod =>
      match mods.mods[vmod]? with
      | none => (.rejected, mods)
      | some mod =>
        if mod.type ≠ .virt then (.rejected, mods)
        else if stmt.value.isNone then (.accepted, mods)
        else (.accepted, remapVMod mods stmt.merge vmod mod mapping)
    | none =>
      if xkbMaxMods ≤ mods.mods.length then (.rejected, mods)
      else (.accepted, addVMod mods stmt.name mapping stmt.value.isSome)

/-- `update_builtin_keymap_fields`: the real modifiers. -/
def builtinMods : XkbModSet where
  mods :=
    ["Shift", "Lock", "Control", "Mod1", "Mod2", "Mod3", "Mod4", "Mod5"].mapIdx fun i name =>
      { name := ascii name, type := .real, mapping := 1#32 <<< i }

/-! ### Validity -/

/-- A set of modifiers fits in a mask, its names are distinct, and the modifiers with an explicit
mapping are virtual ones. The other virtual modifiers have none. -/
structure ValidMods (mods : XkbModSet) : Prop where
  length_le : mods.mods.length ≤ xkbMaxMods
  nodup : (mods.mods.map (·.name)).Nodup
  explicit (i : ℕ) : mods.explicitVmods.getLsbD i = true →
    ∃ mod, mods.mods[i]? = some mod ∧ mod.type = .virt
  implicit (i : ℕ) (mod : XkbMod) : mods.mods[i]? = some mod → mod.type = .virt →
    mods.explicitVmods.getLsbD i = false → mod.mapping = 0#32

/-- The modifiers of a set, with their types. -/
def declared (mods : XkbModSet) : List (Atom × ModType) :=
  mods.mods.map fun mod => (mod.name, mod.type)

/-- A set declares the modifiers of another at the same indices, and then virtual ones. -/
def Extends (mods mods' : XkbModSet) : Prop :=
  ∃ added : List Atom, declared mods' = declared mods ++ added.map (·, ModType.virt)

section Extends

variable {mods' mods'' : XkbModSet}

theorem Extends.of_eq (h : declared mods' = declared mods) : Extends mods mods' := ⟨[], by simp [h]⟩

theorem Extends.refl (mods : XkbModSet) : Extends mods mods := .of_eq rfl

theorem Extends.trans (h : Extends mods mods') (h' : Extends mods' mods'') :
    Extends mods mods'' := by
  obtain ⟨added, hadded⟩ := h
  obtain ⟨added', hadded'⟩ := h'
  exact ⟨added ++ added', by rw [hadded', hadded, map_append, append_assoc]⟩

theorem Extends.isPrefix (h : Extends mods mods') : declared mods <+: declared mods' := by
  obtain ⟨added, hadded⟩ := h
  exact ⟨_, hadded.symm⟩

@[simp] theorem length_declared : (declared mods).length = mods.mods.length := length_map _

theorem getElem?_declared (mods : XkbModSet) (i : ℕ) :
    (declared mods)[i]? = mods.mods[i]?.map fun mod => (mod.name, mod.type) := getElem?_map

theorem Extends.length_le (h : Extends mods mods') : mods.mods.length ≤ mods'.mods.length := by
  have hlen := h.isPrefix.length_le
  rwa [length_declared, length_declared] at hlen

/-- A modifier that is in both sets is the same, up to its mapping. -/
theorem Extends.same (h : Extends mods mods') {mod' : XkbMod} (hmod : mods.mods[i]? = some mod)
    (hmod' : mods'.mods[i]? = some mod') : mod'.name = mod.name ∧ mod'.type = mod.type := by
  obtain ⟨added, hadded⟩ := h
  have hdeclared := getElem?_declared mods' i
  have hlt := (List.getElem?_eq_some_iff.mp hmod).1
  rw [hadded, getElem?_append_left (by rwa [length_declared]), getElem?_declared, hmod,
    hmod', map_some, map_some, some_inj, Prod.mk.injEq] at hdeclared
  exact ⟨hdeclared.1.symm, hdeclared.2.symm⟩

/-- A modifier that is only in the larger set is virtual. -/
theorem Extends.virt_of_le (h : Extends mods mods') (hle : mods.mods.length ≤ i)
    (hmod : mods'.mods[i]? = some mod) : mod.type = .virt := by
  obtain ⟨added, hadded⟩ := h
  have hdeclared := getElem?_declared mods' i
  rw [hadded, getElem?_append_right (by rwa [length_declared]), getElem?_map, hmod,
    map_some] at hdeclared
  obtain ⟨name, -, hname⟩ := map_eq_some_iff.mp hdeclared
  exact (congrArg Prod.snd hname).symm

/-- A new mapping declares nothing. -/
theorem declared_set (hmod : mods.mods[i]? = some mod) (mapping explicitVmods : BitVec 32) :
    declared ⟨mods.mods.set i { mod with mapping }, explicitVmods⟩ = declared mods := by
  obtain ⟨hlt, rfl⟩ := List.getElem?_eq_some_iff.mp hmod
  have hself := @set_getElem_self _ (declared mods) i (by rwa [length_declared])
  simpa only [declared, map_set, getElem_map] using hself

end Extends

section Valid

variable {explicitVmods : BitVec 32}

/-- How a modifier is marked as explicit, or not. -/
theorem getLsbD_mark (m : BitVec 32) (hlt : vmod < xkbMaxMods) (j : ℕ) :
    (if explicit then m ||| 1#32 <<< vmod else m).getLsbD j = true ↔
      m.getLsbD j = true ∨ explicit = true ∧ j = vmod := by
  cases explicit
  · simp
  · simpa using getLsbD_or_one_shiftLeft m hlt j

/-- **A new mapping keeps a set valid**, if it is marked as explicit. -/
theorem ValidMods.set (h : ValidMods mods) (hmod : mods.mods[i]? = some mod)
    (hvirt : mod.type = .virt)
    (hbits : ∀ j, explicitVmods.getLsbD j = true ↔ mods.explicitVmods.getLsbD j = true ∨ j = i)
    (mapping : BitVec 32) : ValidMods ⟨mods.mods.set i { mod with mapping }, explicitVmods⟩ := by
  have hlt : i < mods.mods.length := (List.getElem?_eq_some_iff.mp hmod).1
  refine ⟨?_, ?_, ?_, ?_⟩
  · rw [length_set]
    exact h.length_le
  · have hnames := congrArg (List.map Prod.fst) (declared_set hmod mapping explicitVmods)
    simp only [declared, List.map_map, comp_def] at hnames
    rw [hnames]
    exact h.nodup
  · intro j hj
    rcases eq_or_ne i j with rfl | hne
    · exact ⟨{ mod with mapping }, getElem?_set_self hlt, hvirt⟩
    · rw [getElem?_set_ne hne]
      exact h.explicit j (((hbits j).mp hj).resolve_right hne.symm)
  · intro j mod' hmod' hvirt' hj
    rcases eq_or_ne i j with rfl | hne
    · exact absurd ((hbits i).mpr (.inr rfl)) (by rw [hj]; exact Bool.false_ne_true)
    · rw [getElem?_set_ne hne] at hmod'
      refine h.implicit j mod' hmod' hvirt' (Bool.eq_false_iff.mpr fun hold => ?_)
      exact absurd ((hbits j).mpr (.inl hold)) (by rw [hj]; exact Bool.false_ne_true)

/-- **A new virtual modifier keeps a set valid**, if its name is new and there is room. -/
theorem ValidMods.append (h : ValidMods mods) (hroom : mods.mods.length < xkbMaxMods)
    (hname : mod.name ∉ mods.mods.map (·.name)) (hvirt : mod.type = .virt)
    (hbits : ∀ j, explicitVmods.getLsbD j = true ↔
      mods.explicitVmods.getLsbD j = true ∨ explicit = true ∧ j = mods.mods.length)
    (hmapping : explicit = false → mod.mapping = 0#32) :
    ValidMods ⟨mods.mods ++ [mod], explicitVmods⟩ := by
  refine ⟨?_, ?_, ?_, ?_⟩
  · rw [length_append, length_singleton]
    exact hroom
  · rw [map_append, map_singleton]
    exact h.nodup.append (nodup_singleton _) (by simpa using hname)
  · intro j hj
    rcases (hbits j).mp hj with hold | ⟨-, rfl⟩
    · obtain ⟨mod', hmod', hvirt'⟩ := h.explicit j hold
      refine ⟨mod', ?_, hvirt'⟩
      rwa [getElem?_append_left (List.getElem?_eq_some_iff.mp hmod').1]
    · exact ⟨mod, getElem?_concat_length, hvirt⟩
  · intro j mod' hmod' hvirt' hj
    rcases lt_or_ge j mods.mods.length with hlt | hge
    · rw [getElem?_append_left hlt] at hmod'
      refine h.implicit j mod' hmod' hvirt' (Bool.eq_false_iff.mpr fun hold => ?_)
      exact absurd ((hbits j).mpr (.inl hold)) (by rw [hj]; exact Bool.false_ne_true)
    · have hlast : j = mods.mods.length := by
        have hlt := (List.getElem?_eq_some_iff.mp hmod').1
        rw [length_append, length_singleton] at hlt
        omega
      subst hlast
      obtain rfl : mod = mod' := by simpa using hmod'
      refine hmapping (Bool.eq_false_iff.mpr fun hexplicit => ?_)
      exact absurd ((hbits _).mpr (.inr ⟨hexplicit, rfl⟩)) (by rw [hj]; exact Bool.false_ne_true)

theorem validMods_builtinMods : ValidMods builtinMods := by
  refine ⟨by decide, by decide, ?_, ?_⟩
  · intro i hi
    exact absurd hi (by simp [builtinMods])
  · intro i mod hmod hvirt
    have hreal : ∀ mod ∈ builtinMods.mods, mod.type = .real := by decide
    cases hvirt.symm.trans (hreal mod (mem_of_getElem? hmod))

theorem declared_initVMods (mods : XkbModSet) (reset : Bool) :
    declared (initVMods mods reset) = declared mods := by
  cases reset
  · rfl
  · simp [initVMods, declared, comp_def]

/-- A set without its mappings is valid. -/
theorem ValidMods.initVMods (h : ValidMods mods) (reset : Bool) :
    ValidMods (initVMods mods reset) := by
  cases reset
  · exact h
  · refine ⟨?_, ?_, ?_, ?_⟩
    · rw [Xkbcomp.initVMods, if_pos rfl, length_map]
      exact h.length_le
    · have hnames := congrArg (List.map Prod.fst) (declared_initVMods mods true)
      simp only [declared, List.map_map, comp_def] at hnames
      rw [hnames]
      exact h.nodup
    · intro i hi
      simp [Xkbcomp.initVMods] at hi
    · intro i mod hmod _ _
      rw [Xkbcomp.initVMods, if_pos rfl] at hmod
      simp only [getElem?_map] at hmod
      obtain ⟨old, -, rfl⟩ := map_eq_some_iff.mp hmod
      rfl

end Valid

/-! ### Declarations -/

section Declarations

theorem remapVMod_spec (h : ValidMods mods) (hmod : mods.mods[vmod]? = some mod)
    (hvirt : mod.type = .virt) {merge : MergeMode} :
    ValidMods (remapVMod mods merge vmod mod mapping) ∧
      Extends mods (remapVMod mods merge vmod mod mapping) := by
  have hlt := (List.getElem?_eq_some_iff.mp hmod).1
  refine ⟨h.set hmod hvirt ?_ _, .of_eq (declared_set hmod _ _)⟩
  exact getLsbD_or_one_shiftLeft _ (hlt.trans_le h.length_le)

theorem addVMod_spec (h : ValidMods mods) (hroom : mods.mods.length < xkbMaxMods) {name : Atom}
    (hname : name ∉ mods.mods.map (·.name)) (hmapping : explicit = false → mapping = 0#32) :
    ValidMods (addVMod mods name mapping explicit) ∧
      Extends mods (addVMod mods name mapping explicit) := by
  refine ⟨h.append hroom hname rfl ?_ hmapping, [name], by simp [declared, addVMod]⟩
  exact getLsbD_mark _ hroom

/-- **A declaration keeps a set valid** and at most adds a virtual modifier. -/
theorem handleVModDef_spec (h : ValidMods mods) (stmt : VModDef) :
    ValidMods (handleVModDef mods stmt).2 ∧ Extends mods (handleVModDef mods stmt).2 := by
  have hsame : ValidMods mods ∧ Extends mods mods := ⟨h, .refl mods⟩
  rw [handleVModDef]
  split
  · exact hsame
  rename_i mapping hvalue
  split
  · split
    · exact hsame
    rename_i vmod _ _ mod hmod
    split_ifs with hvirt
    · exact hsame
    · exact hsame
    · exact remapVMod_spec h hmod (not_not.mp hvirt)
  · rename_i hnew
    split_ifs with hroom
    · exact hsame
    · refine addVMod_spec h (not_le.mp hroom) ?_ ?_
      · intro hmem
        obtain ⟨mod, hmod, hname⟩ := List.mem_map.mp hmem
        exact absurd (findIdx?_eq_none_iff.mp hnew mod hmod) (by simp [hname])
      · intro hnone
        have hnovalue : stmt.value = none := by simpa using hnone
        rw [hnovalue] at hvalue
        exact (Except.ok.inj hvalue).symm

end Declarations

/-! ### Merging -/

section Merging

variable {into source : XkbModSet} {mods : List XkbMod} {clobber : Bool}

/-- What a step of the merge leaves: a valid set between the two, with the modifier at hand. -/
def MergedUpTo (into source : XkbModSet) (vmod : ℕ) (merged : XkbModSet) : Prop :=
  ValidMods merged ∧ Extends into merged ∧ Extends merged source ∧ vmod < merged.mods.length

/-- A modifier that is only in the larger set is appended. -/
theorem mergedUpTo_append (hinto : ValidMods into) (hsource : ValidMods source)
    (hextends : Extends into source) (hmod : source.mods[into.mods.length]? = some mod)
    {explicitVmods : BitVec 32}
    (hbits : ∀ j, explicitVmods.getLsbD j = true ↔ into.explicitVmods.getLsbD j = true ∨
      source.explicitVmods.getLsbD into.mods.length = true ∧ j = into.mods.length) :
    MergedUpTo into source into.mods.length ⟨into.mods ++ [mod], explicitVmods⟩ := by
  have hvirt : mod.type = .virt := hextends.virt_of_le le_rfl hmod
  have hlt := (List.getElem?_eq_some_iff.mp hmod).1
  have hdeclared := getElem?_declared source into.mods.length
  obtain ⟨added, hadded⟩ := hextends
  -- the modifier is the first one that the larger set adds
  rw [hadded, getElem?_append_right (by rw [length_declared]), length_declared, Nat.sub_self,
    hmod, getElem?_map, map_some, hvirt] at hdeclared
  obtain ⟨name, hname, hnameEq⟩ := map_eq_some_iff.mp hdeclared
  obtain rfl : name = mod.name := congrArg Prod.fst hnameEq
  obtain ⟨rest, rfl⟩ : ∃ rest, added = mod.name :: rest := by
    rw [← head?_eq_getElem?] at hname
    exact ⟨added.tail, (cons_head?_tail hname).symm⟩
  have happend : declared ⟨into.mods ++ [mod], explicitVmods⟩ =
      declared into ++ [(mod.name, .virt)] := by
    simp [declared, hvirt]
  refine ⟨?_, ⟨[mod.name], by simpa using happend⟩, ⟨rest, ?_⟩, by simp⟩
  · refine hinto.append (hlt.trans_le hsource.length_le) ?_ hvirt hbits ?_
    · have hnames := congrArg (List.map Prod.fst) hadded
      have hnodup := hsource.nodup
      simp only [declared, List.map_map, comp_def, map_append, map_cons] at hnames
      rw [hnames] at hnodup
      exact fun hmem => disjoint_of_nodup_append hnodup hmem mem_cons_self
    · exact hsource.implicit _ mod hmod hvirt
  · rw [hadded, happend, append_assoc]
    rfl

/-- A modifier that is in both sets at most gets another mapping. -/
theorem mergedUpTo_set (hinto : ValidMods into) (hextends : Extends into source) {old : XkbMod}
    (hold : into.mods[vmod]? = some old) (hvirt : old.type = .virt) {explicitVmods : BitVec 32}
    (hbits : ∀ j, explicitVmods.getLsbD j = true ↔ into.explicitVmods.getLsbD j = true ∨ j = vmod) :
    MergedUpTo into source vmod ⟨into.mods.set vmod { old with mapping }, explicitVmods⟩ := by
  have hsame := declared_set hold mapping explicitVmods
  refine ⟨hinto.set hold hvirt hbits mapping, .of_eq hsame, ?_, ?_⟩
  · exact (Extends.of_eq hsame.symm).trans hextends
  · rw [length_set]
    exact (List.getElem?_eq_some_iff.mp hold).1

/-- **One modifier in the merge.** -/
theorem mergeMod_spec (hinto : ValidMods into) (hsource : ValidMods source)
    (hextends : Extends into source) (hmod : source.mods[vmod]? = some mod)
    (hle : vmod ≤ into.mods.length) :
    MergedUpTo into source vmod
      (mergeMod clobber (source.explicitVmods.getLsbD vmod) into vmod mod) := by
  have hkeep (hlt : vmod < into.mods.length) : MergedUpTo into source vmod into :=
    ⟨hinto, .refl into, hextends, hlt⟩
  rcases hle.lt_or_eq with hlt | rfl
  · obtain ⟨old, hold⟩ : ∃ old, into.mods[vmod]? = some old := ⟨_, getElem?_eq_getElem hlt⟩
    have htype := (hextends.same hold hmod).2
    have hremap (hvirt : mod.type = .virt) (hbit : into.explicitVmods.getLsbD vmod = true)
        (mapping : BitVec 32) : MergedUpTo into source vmod
          ⟨into.mods.set vmod { old with mapping }, into.explicitVmods⟩ := by
      refine mergedUpTo_set hinto hextends hold (htype.symm.trans hvirt) (fun j => ?_)
      exact ⟨.inl, fun h => h.elim id fun heq => heq ▸ hbit⟩
    rw [mergeMod, hold]
    dsimp only
    split_ifs with hvirt hexplicit hinto' hmapping hclobber
    · exact hkeep hlt
    · exact hkeep hlt
    · refine mergedUpTo_set hinto hextends hold (htype.symm.trans (not_not.mp hvirt)) ?_
      exact getLsbD_or_one_shiftLeft _ (hlt.trans_le hinto.length_le)
    · exact hremap (not_not.mp hvirt) (by simpa using hinto') _
    · exact hremap (not_not.mp hvirt) (by simpa using hinto') _
    · exact hkeep hlt
  · have hlt := (List.getElem?_eq_some_iff.mp hmod).1
    rw [mergeMod, getElem?_eq_none le_rfl, hextends.virt_of_le le_rfl hmod]
    refine mergedUpTo_append hinto hsource hextends hmod ?_
    exact getLsbD_mark _ (hlt.trans_le hsource.length_le)

/-- **The loop of the merge.** -/
theorem mergeMods_spec (hinto : ValidMods into) (hsource : ValidMods source)
    (hextends : Extends into source) (hmods : source.mods.drop vmod = mods)
    (hle : vmod ≤ into.mods.length) :
    ValidMods (mergeMods clobber source vmod mods into) ∧
      Extends into (mergeMods clobber source vmod mods into) ∧
      declared (mergeMods clobber source vmod mods into) = declared source := by
  induction mods generalizing vmod into with
  | nil =>
    refine ⟨hinto, .refl into, ?_⟩
    have hlen : source.mods.length ≤ vmod := drop_eq_nil_iff.mp hmods
    refine hextends.isPrefix.eq_of_length_le ?_
    rw [length_declared, length_declared]
    exact hlen.trans hle
  | cons mod mods ih =>
    have hget : source.mods[vmod]? = some mod := by
      rw [← head?_drop, hmods, head?_cons]
    have hdrop : source.mods.drop (vmod + 1) = mods := by
      rw [← tail_drop, hmods, tail_cons]
    obtain ⟨hvalid, hfirst, hrest, hlt⟩ := mergeMod_spec hinto hsource hextends hget hle
    obtain ⟨hvalid', hsecond, hdeclared⟩ := ih hvalid hrest hdrop hlt
    exact ⟨hvalid', hfirst.trans hsecond, hdeclared⟩

/-- **Merging a set into one that it extends** gives a valid set with the same modifiers. -/
theorem mergeModSets_spec (hinto : ValidMods into) (hsource : ValidMods source)
    (hextends : Extends into source) (merge : MergeMode) :
    ValidMods (mergeModSets merge into source) ∧
      declared (mergeModSets merge into source) = declared source := by
  obtain ⟨hvalid, -, hdeclared⟩ := mergeMods_spec hinto hsource hextends drop_zero (Nat.zero_le _)
  have hlen := congrArg List.length hdeclared
  rw [length_declared, length_declared] at hlen
  rw [mergeModSets, take_of_length_le hlen.le]
  exact ⟨hvalid, hdeclared⟩

/-- The assertions of `MergeModSets`. -/
structure MergeModSetsAssertions (into source : XkbModSet) : Prop where
  length_le : into.mods.length ≤ source.mods.length
  /-- A real modifier is in both sets. -/
  real (vmod : ℕ) (mod : XkbMod) : source.mods[vmod]? = some mod → mod.type ≠ .virt →
    ∃ old, into.mods[vmod]? = some old ∧ old.type = mod.type ∧ old.name = mod.name
  /-- A virtual modifier that is in both sets is the same, and has no mapping where it is not
  explicit. -/
  virt (vmod : ℕ) (mod old : XkbMod) : source.mods[vmod]? = some mod → mod.type = .virt →
    into.mods[vmod]? = some old → old.type = .virt ∧ old.name = mod.name ∧
      (source.explicitVmods.getLsbD vmod = false → mod.mapping = 0#32) ∧
      (into.explicitVmods.getLsbD vmod = false → old.mapping = 0#32)

theorem mergeModSetsAssertions_of_extends (hinto : ValidMods into) (hsource : ValidMods source)
    (hextends : Extends into source) : MergeModSetsAssertions into source := by
  refine ⟨hextends.length_le, ?_, ?_⟩
  · intro vmod mod hmod hreal
    have hlt : vmod < into.mods.length := by
      by_contra hge
      exact hreal (hextends.virt_of_le (not_lt.mp hge) hmod)
    have hold := getElem?_eq_getElem hlt
    obtain ⟨hname, htype⟩ := hextends.same hold hmod
    exact ⟨_, hold, htype.symm, hname.symm⟩
  · intro vmod mod old hmod hvirt hold
    obtain ⟨hname, htype⟩ := hextends.same hold hmod
    have holdvirt : old.type = .virt := htype.symm.trans hvirt
    exact ⟨holdvirt, hname.symm, hsource.implicit vmod mod hmod hvirt,
      hinto.implicit vmod old hold holdvirt⟩

end Merging

end Xkbcommon.Xkbcomp
