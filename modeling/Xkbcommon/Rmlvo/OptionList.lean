import Xkbcommon.Rmlvo.OptionOrder

/-!
# The options of a comma-joined string

An option may be followed by `!n`, which makes it an option of the `n`-th layout only. The same
option may be given several times, and is then an option of all the layouts it was given for, or
of every layout if it was once given for none in particular. A specifier that is no number from 1
to 32 does not count.

The code reads the number first and looks for what follows it afterwards. It reports a number
that something follows, but has set the layout by then (`Xkbcommon.splitOptions_garbage`). Such a
specifier does no harm to an option that is given for all layouts as well, and otherwise it does:
`Xkbcommon.splitOptions_eq_iff`.
-/

namespace Xkbcommon

open List

variable {items : List (List UInt8)}

/-- The value of a text of decimal digits. -/
def digitsValue (s : List UInt8) : ℕ := digitsFrom 10 decDigit 0 s

/-! ### What is documented -/

/-- The name of an item: what stands before the first `!`. -/
def optionName (item : List UInt8) : List UInt8 := stripSpaces (item.takeWhile (· != 0x21))

/-- The specifier of an item: what stands after the first `!`. -/
def specifier (item : List UInt8) : List UInt8 := (item.dropWhile (· != 0x21)).drop 1

/-- The layout that a specifier stands for, if it is exactly a number from 1 to 32. -/
def exactLayout (spec : List UInt8) : Option ℕ :=
  if spec ≠ [] ∧ spec.all isDigit = true ∧ 1 ≤ digitsValue spec ∧ digitsValue spec ≤ 32 then
    some (digitsValue spec)
  else none

/-- The layouts of one item: all of them without a valid specifier. -/
def itemMask (item : List UInt8) : BitVec 32 :=
  ((exactLayout (specifier item)).map fun n => 1#32 <<< (n - 1)).getD optionLayoutMaskGlobal

/-- The names of the items, in the order in which they occur first. -/
def optionNames (items : List (List UInt8)) : List (List UInt8) :=
  ((items.map optionName).filter (· ≠ [])).eraseDups

/-- The layouts of an option, given those of an item: those of the items of its name, all of them
if one item is for all. -/
def optionMask (mask : List UInt8 → BitVec 32) (items : List (List UInt8)) (name : List UInt8) :
    BitVec 32 :=
  mergeLayouts ((items.filter (optionName · = name)).map mask)

/-- **The options of a string, as documented.** -/
def documentedOptions (s : List UInt8) : List MatchedSval :=
  match optionNames (s.splitOn 0x2c) with
  | [] => [{ sval := [], layouts := optionLayoutMaskGlobal }]
  | names => names.map fun name => ⟨name, optionMask itemMask (s.splitOn 0x2c) name⟩

/-! ### The layouts of one item -/

/-- The specifier starts with a number from 1 to 32. -/
def Numbered (item : List UInt8) : Prop :=
  (specifier item).takeWhile isDigit ≠ [] ∧
    1 ≤ digitsValue ((specifier item).takeWhile isDigit) ∧
    digitsValue ((specifier item).takeWhile isDigit) ≤ 32

/-- **The specifier has something behind its number**, which is one from 1 to 32. -/
def Garbage (item : List UInt8) : Prop :=
  Numbered item ∧ (specifier item).takeWhile isDigit ≠ specifier item

instance : DecidablePred Numbered := fun _ => inferInstanceAs (Decidable (_ ∧ _ ∧ _))

/-- The number counts, whatever follows it. -/
theorem layouts_splitItem (item : List UInt8) :
    (splitItem .option item).layouts =
      if Numbered item then 1#32 <<< (digitsValue ((specifier item).takeWhile isDigit) - 1)
      else optionLayoutMaskGlobal := by
  have hlayouts : (splitItem .option item).layouts = specifierLayouts (specifier item) := by
    unfold splitItem specifier
    dsimp only
    cases item.dropWhile (· != 0x21) with
    | nil => rfl
    | cons c spec => rfl
  have hpos : (specifier item).takeWhile isDigit ≠ [] ↔
      0 < ((specifier item).takeWhile isDigit).length := length_pos_iff.symm
  rw [hlayouts, specifierLayouts, parseDecToUint32, parseDec_eq (by decide), ← digitsValue]
  by_cases hlt : digitsValue ((specifier item).takeWhile isDigit) < 2 ^ 32
  · simp only [hlt, if_true]
    refine if_congr ?_ rfl rfl
    rw [Numbered, hpos, Nat.one_le_iff_ne_zero, xkbMaxGroups]
  · rw [if_neg hlt, if_neg fun h : Numbered item => hlt (by have := h.2.2; omega)]

theorem layouts_splitItem_eq_global_iff {item : List UInt8} :
    (splitItem .option item).layouts = optionLayoutMaskGlobal ↔ ¬Numbered item := by
  rw [layouts_splitItem]
  split
  · rename_i hnum
    refine iff_of_false (fun hzero => ?_) (not_not.mpr hnum)
    obtain ⟨-, hpos, hle⟩ := hnum
    have hbit : 32 ≤ digitsValue ((specifier item).takeWhile isDigit) - 1 := by
      simpa [optionLayoutMaskGlobal] using congrArg
        (·.getLsbD (digitsValue ((specifier item).takeWhile isDigit) - 1)) hzero
    omega
  · rename_i hnum
    exact iff_of_true rfl hnum

/-- An item is for the layouts that are documented, unless something follows its number. -/
theorem layouts_splitItem_eq {item : List UInt8} (h : ¬Garbage item) :
    (splitItem .option item).layouts = itemMask item := by
  rw [layouts_splitItem, itemMask, exactLayout]
  by_cases hall : ∀ c ∈ specifier item, isDigit c = true
  · have hself : (specifier item).takeWhile isDigit = specifier item :=
      takeWhile_eq_self_iff.mpr hall
    by_cases hnum : Numbered item
    · rw [if_pos hnum, if_pos]
      · rw [hself]
        rfl
      · rw [Numbered, hself] at hnum
        exact ⟨hnum.1, all_eq_true.mpr hall, hnum.2⟩
    · rw [if_neg hnum, if_neg]
      · rfl
      · rw [Numbered, hself] at hnum
        exact fun h => hnum ⟨h.1, h.2.2⟩
  · have hnum : ¬Numbered item := fun hnum => h ⟨hnum, mt takeWhile_eq_self_iff.mp hall⟩
    rw [if_neg hnum, if_neg fun h => hall (all_eq_true.mp h.2.1)]
    rfl

theorem itemMask_of_garbage {item : List UInt8} (h : Garbage item) :
    itemMask item = optionLayoutMaskGlobal := by
  have hnot : ¬(specifier item).all isDigit = true := fun hall =>
    h.2 (takeWhile_eq_self_iff.mpr (all_eq_true.mp hall))
  rw [itemMask, exactLayout, if_neg fun h => hnot h.2.1]
  rfl

/-! ### The items of the string -/

/-- **The loop over the items** finds the options of the items. -/
theorem foldl_addItem_optionNames :
    items.foldl (addItem .option) [] = (optionNames items).map fun name =>
      ⟨name, optionMask (fun item => (splitItem .option item).layouts) items name⟩ := by
  have hsval : ∀ item, (splitItem .option item).sval = optionName item := fun _ => rfl
  have hnames : firstNames ((items.map (splitItem .option)).filter fun val => val.sval != []) =
      optionNames items := by
    rw [firstNames_eq, optionNames, filter_map, map_map, filter_map]
    congr 2
    exact filter_congr fun item _ => Bool.eq_iff_iff.mpr (by simp [hsval])
  rw [foldl_addItem, foldl_mergeOption, hnames]
  refine map_congr_left fun name hname => ?_
  rw [optionNames, mem_eraseDups, mem_filter, decide_eq_true_iff] at hname
  rw [layoutsOf, optionMask, filter_filter, filter_map, map_map]
  congr 3
  refine filter_congr fun item _ => ?_
  by_cases heq : optionName item = name
  · simp [hsval, heq, hname.2]
  · simp [hsval, heq]

theorem mergeLayouts_eq_global_iff {layouts : List (BitVec 32)} (hne : layouts ≠ []) :
    mergeLayouts layouts = optionLayoutMaskGlobal ↔ optionLayoutMaskGlobal ∈ layouts := by
  rw [mergeLayouts]
  split
  · rename_i h
    exact iff_of_true rfl h
  · rename_i h
    exact iff_of_false (foldr_or_ne_zero hne h) h

/-- The items of one name. -/
theorem mergeLayouts_splitItem_iff :
    mergeLayouts (items.map fun item => (splitItem .option item).layouts) =
        mergeLayouts (items.map itemMask) ↔
      ∀ item ∈ items, Garbage item → ∃ other ∈ items, ¬Numbered other := by
  by_cases hgarbage : ∃ item ∈ items, Garbage item
  · obtain ⟨item, hitem, hg⟩ := hgarbage
    have hne : items ≠ [] := ne_nil_of_mem hitem
    have hdocumented : mergeLayouts (items.map itemMask) = optionLayoutMaskGlobal :=
      if_pos (mem_map.mpr ⟨item, hitem, itemMask_of_garbage hg⟩)
    rw [hdocumented, mergeLayouts_eq_global_iff (mt map_eq_nil_iff.mp hne), mem_map]
    simp only [layouts_splitItem_eq_global_iff]
    exact ⟨fun h _ _ _ => h, fun h => h item hitem hg⟩
  · refine iff_of_true ?_ fun item hitem hg => absurd ⟨item, hitem, hg⟩ hgarbage
    congr 1
    exact map_congr_left fun item hitem =>
      layouts_splitItem_eq fun hg => hgarbage ⟨item, hitem, hg⟩

/-- **The options are read as documented** if and only if each option with a specifier in which
something follows the number is given for all layouts by another item. -/
theorem splitOptions_eq_iff (s : List UInt8) :
    splitCommaSeparatedMlvo .option (some s) = documentedOptions s ↔
      ∀ item ∈ s.splitOn 0x2c, optionName item ≠ [] → Garbage item →
        ∃ other ∈ s.splitOn 0x2c, optionName other = optionName item ∧ ¬Numbered other := by
  rw [splitCommaSeparatedMlvo, foldl_addItem_optionNames, documentedOptions]
  generalize s.splitOn 0x2c = items
  have hmem : ∀ name, name ∈ optionNames items ↔
      (∃ item ∈ items, optionName item = name) ∧ name ≠ [] := by
    intro name
    rw [optionNames, mem_eraseDups, mem_filter, mem_map, decide_eq_true_iff]
  have hiff : ((optionNames items).map fun name => (⟨name, optionMask
        (fun item => (splitItem .option item).layouts) items name⟩ : MatchedSval)) =
      (optionNames items).map (fun name => ⟨name, optionMask itemMask items name⟩) ↔
      ∀ item ∈ items, optionName item ≠ [] → Garbage item →
        ∃ other ∈ items, optionName other = optionName item ∧ ¬Numbered other := by
    simp only [map_inj_left, MatchedSval.mk.injEq, true_and, optionMask,
      mergeLayouts_splitItem_iff, mem_filter, decide_eq_true_iff, hmem, and_assoc]
    exact ⟨fun h item hitem hname hg => h _ ⟨⟨item, hitem, rfl⟩, hname⟩ item ⟨hitem, rfl⟩ hg,
      fun h name hname item hitem hg => hitem.2 ▸ h item hitem.1 (hitem.2 ▸ hname.2) hg⟩
  rw [← hiff]
  cases optionNames items with
  | nil => exact iff_of_true rfl rfl
  | cons name names => rfl

/-- A number that something follows is reported as invalid, but counts all the same. -/
theorem splitOptions_garbage :
    splitCommaSeparatedMlvo .option (some (ascii "a!1x")) = [⟨ascii "a", 1#32⟩] ∧
      documentedOptions (ascii "a!1x") = [⟨ascii "a", optionLayoutMaskGlobal⟩] := by
  decide +kernel

end Xkbcommon
