import Mathlib.Data.List.Dedup
import Xkbcommon.Rmlvo.Lockstep

/-!
# The order of the options

The options of a keyboard are a set, each with the layouts it is for: writing them in another order
resolves to the same components, whatever the rules say. Two things are behind this. Splitting the
string merges the entries of one name into one, for all layouts if one of them is, and for the
layouts of all of them otherwise (`Xkbcommon.foldl_mergeOption`). And matching takes the options as
a set (`Xkbcommon.matchOptions_perm`).
-/

namespace Xkbcommon

open Outcome List

variable {layouts : List (BitVec 32)}

/-! ### Merging the entries of one name -/

/-- The layouts of several entries of one name. -/
def mergeLayouts (layouts : List (BitVec 32)) : BitVec 32 :=
  if optionLayoutMaskGlobal ∈ layouts then optionLayoutMaskGlobal
  else layouts.foldr (· ||| ·) 0#32

/-- The layouts of the entries of a name. -/
def layoutsOf (vals : List MatchedSval) (name : List UInt8) : BitVec 32 :=
  mergeLayouts ((vals.filter fun val => val.sval == name).map MatchedSval.layouts)

/-- The names of the entries, each where it occurs first. -/
def firstNames (vals : List MatchedSval) : List (List UInt8) :=
  vals.foldl (fun names val => if val.sval ∈ names then names else names ++ [val.sval]) []

variable (vals : List MatchedSval) {val : MatchedSval} {names items : List (List UInt8)}
  {name : List UInt8} {last : BitVec 32} {f : List UInt8 → BitVec 32} {arr : List MatchedSval}

theorem firstNames_append :
    firstNames (vals ++ [val]) =
      if val.sval ∈ firstNames vals then firstNames vals else firstNames vals ++ [val.sval] := by
  rw [firstNames, foldl_append]
  rfl

theorem firstNames_eq : firstNames vals = (vals.map MatchedSval.sval).eraseDups := by
  induction vals using reverseRecOn with
  | nil => rfl
  | append_singleton vals val ih =>
    rw [firstNames_append, ih, map_append, eraseDups_append]
    by_cases hmem : val.sval ∈ vals.map MatchedSval.sval
    · rw [if_pos (mem_eraseDups.mpr hmem)]
      simp_all [removeAll]
    · rw [if_neg (mt mem_eraseDups.mp hmem)]
      simp_all [removeAll, eraseDups_cons]

theorem mem_firstNames {vals : List MatchedSval} :
    name ∈ firstNames vals ↔ ∃ val ∈ vals, val.sval = name := by
  rw [firstNames_eq, mem_eraseDups, mem_map]

theorem nodup_firstNames : (firstNames vals).Nodup := by
  induction vals using reverseRecOn with
  | nil => exact nodup_nil
  | append_singleton vals val ih =>
    rw [firstNames_append]
    split
    · exact ih
    · rename_i hmem
      exact nodup_append'.mpr ⟨ih, nodup_singleton _, by simpa using hmem⟩

theorem foldr_or_append :
    (layouts ++ [last]).foldr (· ||| ·) 0#32 = layouts.foldr (· ||| ·) 0#32 ||| last := by
  induction layouts with
  | nil => simp
  | cons l layouts ih => rw [cons_append, foldr_cons, ih, foldr_cons, BitVec.or_assoc]

theorem foldr_or_ne_zero (hne : layouts ≠ []) (h : optionLayoutMaskGlobal ∉ layouts) :
    layouts.foldr (· ||| ·) 0#32 ≠ optionLayoutMaskGlobal := by
  cases layouts with
  | nil => exact absurd rfl hne
  | cons l layouts =>
    rw [foldr_cons, optionLayoutMaskGlobal, ne_eq, BitVec.or_eq_zero_iff]
    rintro ⟨rfl, -⟩
    exact h mem_cons_self

theorem mergeLayouts_singleton (layouts : BitVec 32) : mergeLayouts [layouts] = layouts := by
  rw [mergeLayouts]
  split
  · rename_i h
    exact mem_singleton.mp h
  · exact BitVec.or_zero

/-- One more entry of a name that has entries. -/
theorem mergeLayouts_append (hne : layouts ≠ []) :
    mergeLayouts (layouts ++ [last]) =
      if last = optionLayoutMaskGlobal then optionLayoutMaskGlobal
      else if mergeLayouts layouts ≠ optionLayoutMaskGlobal then mergeLayouts layouts ||| last
      else mergeLayouts layouts := by
  by_cases hlast : last = optionLayoutMaskGlobal
  · rw [if_pos hlast, mergeLayouts, if_pos (by simp [hlast])]
  · rw [if_neg hlast]
    by_cases hmem : optionLayoutMaskGlobal ∈ layouts
    · have hzero : mergeLayouts layouts = optionLayoutMaskGlobal := if_pos hmem
      rw [if_neg (not_not.mpr hzero), hzero, mergeLayouts, if_pos (mem_append_left _ hmem)]
    · have hor : mergeLayouts layouts = layouts.foldr (· ||| ·) 0#32 := if_neg hmem
      rw [hor, if_pos (foldr_or_ne_zero hne hmem), mergeLayouts, if_neg, foldr_or_append]
      simp only [mem_append, mem_singleton, not_or]
      exact ⟨hmem, Ne.symm hlast⟩

/-- A new name goes to the end. -/
theorem mergeOption_of_notMem (h : val.sval ∉ names) :
    mergeOption val (names.map fun name => ⟨name, f name⟩) =
      (names.map fun name => ⟨name, f name⟩) ++ [val] := by
  induction names with
  | nil => rfl
  | cons name names ih =>
    rw [mem_cons, not_or] at h
    rw [map_cons, mergeOption, if_neg (Ne.symm h.1), ih h.2, cons_append]

/-- A name that is there gets the layouts of the new entry. -/
theorem mergeOption_of_mem (hnodup : names.Nodup) (h : val.sval ∈ names) :
    mergeOption val (names.map fun name => ⟨name, f name⟩) =
      names.map fun name => ⟨name, if name = val.sval then
        if val.layouts = optionLayoutMaskGlobal then optionLayoutMaskGlobal
        else if f name ≠ optionLayoutMaskGlobal then f name ||| val.layouts
        else f name
      else f name⟩ := by
  induction names with
  | nil => exact absurd h not_mem_nil
  | cons name names ih =>
    rw [nodup_cons] at hnodup
    rw [map_cons, map_cons, mergeOption]
    by_cases hname : name = val.sval
    · have hrest : ∀ n ∈ names, n ≠ val.sval := fun n hn hc => hnodup.1 (hname ▸ hc ▸ hn)
      have htail : (names.map fun n => (⟨n, f n⟩ : MatchedSval)) = names.map fun n => ⟨n,
          if n = val.sval then
            if val.layouts = optionLayoutMaskGlobal then optionLayoutMaskGlobal
            else if f n ≠ optionLayoutMaskGlobal then f n ||| val.layouts
            else f n
          else f n⟩ := map_congr_left fun n hn => by rw [if_neg (hrest n hn)]
      rw [if_pos hname, if_pos hname, ← htail]
      split_ifs with hval hprev
      · rw [hval]
      · rfl
      · rfl
    · rw [if_neg hname, if_neg hname, ih hnodup.2 ((mem_cons.mp h).resolve_left (Ne.symm hname))]

theorem layoutsOf_append :
    layoutsOf (vals ++ [val]) name =
      mergeLayouts ((vals.filter fun v => v.sval == name).map MatchedSval.layouts ++
        if val.sval = name then [val.layouts] else []) := by
  rw [layoutsOf, filter_append, map_append]
  congr 1
  by_cases hname : val.sval = name
  · simp [hname]
  · simp [hname]

/-- **Merging the entries one by one** gives each name once, where it occurs first, with the
layouts of all its entries. -/
theorem foldl_mergeOption :
    vals.foldl (fun arr val => mergeOption val arr) [] =
      (firstNames vals).map fun name => ⟨name, layoutsOf vals name⟩ := by
  induction vals using reverseRecOn with
  | nil => rfl
  | append_singleton vals val ih =>
    rw [foldl_append, foldl_cons, foldl_nil, ih, firstNames_append]
    split
    · rename_i hmem
      rw [mergeOption_of_mem (nodup_firstNames vals) hmem]
      refine map_congr_left fun name _ => ?_
      rw [layoutsOf_append]
      split
      · rename_i hname
        obtain ⟨v, hv, hvname⟩ := mem_firstNames.mp hmem
        rw [if_pos hname.symm, mergeLayouts_append]
        · rfl
        · rw [ne_eq, map_eq_nil_iff, filter_eq_nil_iff]
          intro hc
          exact hc v hv (by rw [hvname, hname, beq_self_eq_true])
      · rename_i hname
        rw [if_neg (Ne.symm hname), append_nil]
        rfl
    · rename_i hmem
      rw [mergeOption_of_notMem hmem, map_append]
      congr 1
      · refine map_congr_left fun name hname => ?_
        rw [layoutsOf_append, if_neg (fun hc : val.sval = name => hmem (hc ▸ hname)), append_nil]
        rfl
      · have hnone : (vals.filter fun v => v.sval == val.sval) = [] := by
          rw [filter_eq_nil_iff]
          intro v hv hc
          exact hmem (mem_firstNames.mpr ⟨v, hv, by simpa using hc⟩)
        rw [map_singleton, layoutsOf_append, hnone, if_pos rfl, map_nil, nil_append,
          mergeLayouts_singleton]

/-! ### Another order -/

theorem mergeLayouts_perm {layouts' : List (BitVec 32)} (h : layouts.Perm layouts') :
    mergeLayouts layouts = mergeLayouts layouts' := by
  have hor : layouts.foldr (· ||| ·) 0#32 = layouts'.foldr (· ||| ·) 0#32 := by
    refine h.foldr_eq' (fun x _ y _ z => ?_) _
    rw [← BitVec.or_assoc, ← BitVec.or_assoc, BitVec.or_comm x y]
  rw [mergeLayouts, mergeLayouts, hor]
  simp only [h.mem_iff]

/-- The merged entries in another order are the same up to their order. -/
theorem foldl_mergeOption_perm {vals vals' : List MatchedSval} (h : vals.Perm vals') :
    (vals.foldl (fun arr val => mergeOption val arr) []).Perm
      (vals'.foldl (fun arr val => mergeOption val arr) []) := by
  rw [foldl_mergeOption, foldl_mergeOption]
  have hnames : (firstNames vals).Perm (firstNames vals') := by
    rw [perm_ext_iff_of_nodup (nodup_firstNames vals) (nodup_firstNames vals')]
    intro name
    simp only [mem_firstNames, h.mem_iff]
  have hlayouts : layoutsOf vals = layoutsOf vals' := by
    funext name
    exact mergeLayouts_perm ((h.filter _).map _)
  rw [hlayouts]
  exact hnames.map _

/-- Options are added from the items that have a name. -/
theorem foldl_addItem :
    items.foldl (addItem .option) arr =
      ((items.map (splitItem .option)).filter fun val => val.sval != []).foldl
        (fun arr val => mergeOption val arr) arr := by
  induction items generalizing arr with
  | nil => rfl
  | cons item items ih =>
    rw [foldl_cons, ih, map_cons, addItem, if_pos rfl]
    by_cases hname : (splitItem .option item).sval = []
    · rw [if_neg (not_not.mpr hname), filter_cons_of_neg (by simp [hname])]
    · rw [if_pos hname, filter_cons_of_pos (by simpa using hname), foldl_cons]

theorem ensureAtLeastOneValue_perm {arr' : List MatchedSval} (h : arr.Perm arr') :
    (ensureAtLeastOneValue arr).Perm (ensureAtLeastOneValue arr') := by
  cases arr with
  | nil => rw [nil_perm.mp h]
  | cons val arr =>
    cases arr' with
    | nil => cases h.length_eq
    | cons val' arr' => exact h

theorem splitCommaSeparatedMlvo_perm {items' : List (List UInt8)}
    (hitems : ∀ item ∈ items, 0x2c ∉ item) (h : items.Perm items') :
    (splitCommaSeparatedMlvo .option (some ([0x2c].intercalate items))).Perm
      (splitCommaSeparatedMlvo .option (some ([0x2c].intercalate items'))) := by
  by_cases hne : items = []
  · rw [hne] at h
    rw [hne, nil_perm.mp h]
  · have hne' : items' ≠ [] := fun hc => hne (perm_nil.mp (hc ▸ h))
    have hitems' : ∀ item ∈ items', 0x2c ∉ item := fun item hi => hitems item (h.mem_iff.mpr hi)
    rw [splitCommaSeparatedMlvo, splitCommaSeparatedMlvo, splitOn_intercalate _ hitems hne,
      splitOn_intercalate _ hitems' hne', foldl_addItem, foldl_addItem]
    exact ensureAtLeastOneValue_perm (foldl_mergeOption_perm ((h.map _).filter _))

/-- The rules resolve alike for the same options in another order. -/
theorem xkbResolveRules_withOptions (env : RulesEnv) (rules : List UInt8) (names : RuleNames)
    {options : List MatchedSval} (hne : options ≠ []) (hperm : names.options.Perm options) :
    xkbResolveRules env rules names =
      xkbResolveRules env rules (names.withOptions options hne) := by
  have henv : EnvSimilar Eq env env :=
    { includeFiles := fun s => forall₂_eq_eq_eq ▸ rfl
      rulesFile := fun rules => by
        cases env.rulesFile rules with
        | none => exact .none
        | some file => exact .some rfl
      partialFiles := fun name => forall₂_eq_eq_eq ▸ rfl }
  refine similar_xkbResolveRules (fun inc inc' hinc file file' hfile => ?_) henv rfl
  rw [← hfile]
  exact similar_readRulesFile hne hperm hinc file

/-- **The order of the options is irrelevant.** Whatever the rules files, and whatever else is
asked for, options in another order resolve to the same components. -/
theorem options_order_irrelevant (env : RulesEnv) (rmlvo : XkbRuleNames)
    {items items' : List (List UInt8)} (hitems : ∀ item ∈ items, 0x2c ∉ item)
    (h : items.Perm items') :
    xkbComponentsFromRulesNames env
        { rmlvo with options := some ([0x2c].intercalate items) } =
      xkbComponentsFromRulesNames env
        { rmlvo with options := some ([0x2c].intercalate items') } := by
  have hne := splitCommaSeparatedMlvo_ne_nil .option (some ([0x2c].intercalate items'))
  exact xkbResolveRules_withOptions env _ _ hne (splitCommaSeparatedMlvo_perm hitems h)

/-- An option for one layout and for all, in two orders. -/
theorem options_order_irrelevant_swap :
    let items := [ascii "grp:alt!1", ascii "caps:swap", ascii "grp:alt"]
    let items' := [ascii "grp:alt", ascii "grp:alt!1", ascii "caps:swap"]
    let env := rulesEnvOf "! layout[any] option = symbols\n* grp:alt = +grp:%i\n" []
    (∀ item ∈ items, 0x2c ∉ item) ∧ items.Perm items' ∧
      xkbComponentsFromRulesNames env
          { twoLayouts with options := some ([0x2c].intercalate items) } =
        xkbComponentsFromRulesNames env
          { twoLayouts with options := some ([0x2c].intercalate items') } := by
  have hitems : ∀ item ∈ [ascii "grp:alt!1", ascii "caps:swap", ascii "grp:alt"],
      0x2c ∉ item := by decide
  have hperm : [ascii "grp:alt!1", ascii "caps:swap", ascii "grp:alt"].Perm
      [ascii "grp:alt", ascii "grp:alt!1", ascii "caps:swap"] := by decide
  exact ⟨hitems, hperm, options_order_irrelevant _ _ hitems hperm⟩

end Xkbcommon
