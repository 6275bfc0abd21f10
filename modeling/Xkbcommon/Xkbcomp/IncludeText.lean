import Xkbcommon.Rmlvo.Expand
import Xkbcommon.Xkbcomp.OverlayInfo

/-!
# The text of an include statement

`include "pc+us(intl):2|fr"` names files, each with a map of its own and an extra text if it
likes. `IncludeCreate` of `src/xkbcomp/ast-build.c` splits the text at the merge mode prefixes,
each of which is to give the mode of the item that follows it. The loop reads a prefix together
with the item *before* it, and leaves an item without a file out before it has looked at the
prefix. What follows such an item is merged in the mode that was in force there
(`Xkbcommon.Xkbcomp.includeCreate_eq_iff`).
-/

namespace Xkbcommon.Xkbcomp

open List

/-! ### The code -/

/-- What `ParseIncludeMap` reads of an item: the file, the map between brackets, and what
follows a colon. -/
structure IncludeName where
  file : List UInt8
  map : Option (List UInt8)
  extraData : Option (List UInt8)
  deriving DecidableEq, Repr

/-- `IncludeStmt`, less the text of the whole statement. -/
structure IncludeStmt where
  merge : MergeMode
  name : IncludeName
  deriving DecidableEq, Repr

/-- What follows the first character that `p` does not hold of, if there is one. -/
def afterFirst (p : UInt8 → Bool) (s : List UInt8) : Option (List UInt8) :=
  match s.dropWhile p with
  | [] => none
  | _ :: rest => some rest

/-- **`ParseIncludeMap`**: the first item, with the prefix and the text that follow it. The
result is `none` for an illegal text. -/
def parseIncludeMap (str : List UInt8) : Option (IncludeName × List UInt8) :=
  let item := str.takeWhile (!isMergeModePrefix ·)
  let next := str.dropWhile (!isMergeModePrefix ·)
  let extraData := afterFirst (· != 0x3a) item
  let str := item.takeWhile (· != 0x3a)
  let file := str.takeWhile (· != 0x28)
  match afterFirst (· != 0x28) str with
  | none => some (⟨file, none, extraData⟩, next)
  | some map =>
    if file = [] then none  -- map without file
    else if map.dropWhile (· != 0x29) = [0x29] then
      some (⟨file, some (map.takeWhile (· != 0x29)), extraData⟩, next)
    else none

/-- The mode that `nextop` means for the next item. -/
def mergeOfPrefix (nextop : UInt8) : MergeMode :=
  if nextop = 0x7c then .augment else if nextop = 0x5e then .replace else .override

/-- The loop of `IncludeCreate`; the text gets shorter at every turn. -/
def includeLoop : ℕ → MergeMode → List UInt8 → Option (List IncludeStmt)
  | 0, _, _ => some []
  | fuel + 1, merge, str =>
    if str = [] then some []
    else
      match parseIncludeMap str with
      | none => none
      | some (name, next) =>
        -- an item without a file: `continue`
        if name.file = [] then includeLoop fuel merge next.tail
        else
          match next with
          | [] => some [⟨merge, name⟩]
          | nextop :: rest =>
            (includeLoop fuel (mergeOfPrefix nextop) rest).map (⟨merge, name⟩ :: ·)

/-- **`IncludeCreate`**: the statements, or `none` if the text is illegal. -/
def includeCreate (str : List UInt8) (merge : MergeMode) : Option (List IncludeStmt) :=
  includeLoop (str.length + 1) merge str

/-! ### Texts of items -/

/-- An item: a file, a map and an extra text without the characters that would end them. An
item without a file has no map. -/
structure IncludeItemText extends IncludeName where
  file_chars : ∀ c ∈ file, isMergeModePrefix c = false ∧ c ≠ 0x3a ∧ c ≠ 0x28
  map_chars : ∀ c ∈ map.getD [], isMergeModePrefix c = false ∧ c ≠ 0x3a ∧ c ≠ 0x29
  extra_chars : ∀ c ∈ extraData.getD [], isMergeModePrefix c = false
  map_file : file = [] → map = none

/-- The separators of the items. -/
inductive Separator
  | plus | bar | caret
  deriving DecidableEq, Repr

def Separator.char : Separator → UInt8
  | plus => 0x2b
  | bar => 0x7c
  | caret => 0x5e

/-- The mode that is documented for a separator. -/
def Separator.mode : Separator → MergeMode
  | plus => .override
  | bar => .augment
  | caret => .replace

namespace IncludeItemText

/-- The file and the map, as written. -/
def mapText (item : IncludeItemText) : List UInt8 :=
  item.file ++ (item.map.map fun map => 0x28 :: map ++ [0x29]).getD []

def text (item : IncludeItemText) : List UInt8 :=
  item.mapText ++ (item.extraData.map (0x3a :: ·)).getD []

end IncludeItemText

/-- The items after the first one, each after its separator. -/
def restText (rest : List (Separator × IncludeItemText)) : List UInt8 :=
  rest.flatMap fun next => next.1.char :: next.2.text

variable (merge : MergeMode) (item : IncludeItemText) (rest : List (Separator × IncludeItemText))
  {sep : Separator} {fuel : ℕ}

/-- **The documented statements**: the items with a file, each in the mode of the separator
before it, and the first one in that of the caller. -/
def documentedIncludes : List IncludeStmt :=
  (⟨merge, item.toIncludeName⟩ :: rest.map fun next => ⟨next.1.mode, next.2.toIncludeName⟩).filter
    (·.name.file ≠ [])

/-- The items that follow an item without a file have the separator that was in force there.
`merge` is what is in force before `item`. -/
def KeepsModes : MergeMode → IncludeItemText → List (Separator × IncludeItemText) → Prop
  | _, _, [] => True
  | merge, item, (sep, next) :: rest =>
    let inForce := if item.file = [] then merge else sep.mode
    (next.file ≠ [] → inForce = sep.mode) ∧ KeepsModes inForce next rest

/-! ### Reading one item -/

theorem afterFirst_append {p : UInt8 → Bool} {s t : List UInt8} (h : ∀ c ∈ s, p c = true) :
    afterFirst p (s ++ t) = afterFirst p t := by
  rw [afterFirst, dropWhile_append_of_pos h, afterFirst]

theorem mergeOfPrefix_char : mergeOfPrefix sep.char = sep.mode := by
  cases sep <;> rfl

theorem isMergeModePrefix_char : isMergeModePrefix sep.char = true := by
  cases sep <;> decide

theorem IncludeItemText.mapText_chars :
    ∀ c ∈ item.mapText, isMergeModePrefix c = false ∧ c ≠ 0x3a := by
  intro c hc
  rcases mem_append.mp hc with hfile | hmap
  · exact ⟨(item.file_chars c hfile).1, (item.file_chars c hfile).2.1⟩
  · have hchars := item.map_chars
    cases hm : item.map with
    | none => simp [hm] at hmap
    | some map =>
      simp only [hm, Option.map_some, Option.getD_some, cons_append, mem_cons,
        mem_append, not_mem_nil, or_false] at hmap hchars
      rcases hmap with rfl | hmem | rfl
      · decide
      · exact ⟨(hchars c hmem).1, (hchars c hmem).2.1⟩
      · decide

theorem IncludeItemText.text_chars : ∀ c ∈ item.text, isMergeModePrefix c = false := by
  intro c hc
  rcases mem_append.mp hc with hmap | hextra
  · exact (item.mapText_chars c hmap).1
  · have hchars := item.extra_chars
    cases he : item.extraData with
    | none => simp [he] at hextra
    | some extra =>
      simp only [he, Option.map_some, Option.getD_some, mem_cons] at hextra hchars
      rcases hextra with rfl | hmem
      · decide
      · exact hchars c hmem

/-- What is left of the item after the first colon. -/
theorem IncludeItemText.splitExtra :
    afterFirst (· != 0x3a) item.text = item.extraData ∧
      item.text.takeWhile (· != 0x3a) = item.mapText := by
  have hmap : ∀ c ∈ item.mapText, (c != 0x3a) = true := fun c hc =>
    bne_iff_ne.mpr (item.mapText_chars c hc).2
  rw [IncludeItemText.text, afterFirst_append hmap, takeWhile_append_of_pos hmap]
  cases item.extraData with
  | none | some extra => simp [afterFirst]

/-- **`ParseIncludeMap` reads an item back.** -/
theorem parseIncludeMap_text {next : List UInt8}
    (hnext : next = [] ∨ ∃ c t, next = c :: t ∧ isMergeModePrefix c = true) :
    parseIncludeMap (item.text ++ next) = some (item.toIncludeName, next) := by
  have htext : ∀ c ∈ item.text, (!isMergeModePrefix c) = true := fun c hc => by
    rw [item.text_chars c hc, Bool.not_false]
  have htake : next.takeWhile (!isMergeModePrefix ·) = [] ∧
      next.dropWhile (!isMergeModePrefix ·) = next := by
    rcases hnext with rfl | ⟨c, t, rfl, hc⟩
    · exact ⟨rfl, rfl⟩
    · exact ⟨takeWhile_cons_of_neg (by simp [hc]), dropWhile_cons_of_neg (by simp [hc])⟩
  have hfile : ∀ c ∈ item.file, (c != 0x28) = true := fun c hc =>
    bne_iff_ne.mpr (item.file_chars c hc).2.2
  rw [parseIncludeMap, takeWhile_append_of_pos htext, dropWhile_append_of_pos htext,
    htake.1, htake.2, append_nil, item.splitExtra.1, item.splitExtra.2,
    IncludeItemText.mapText, afterFirst_append hfile, takeWhile_append_of_pos hfile]
  obtain ⟨⟨file, map, extraData⟩, -, hchars, -, hmap⟩ := item
  cases map with
  | none => simp [afterFirst]
  | some map =>
    have hclose : ∀ c ∈ map, (c != 0x29) = true := fun c hc => bne_iff_ne.mpr (hchars c hc).2.2
    have hne : file ≠ [] := fun h => nomatch hmap h
    simp only [Option.map_some, Option.getD_some, cons_append, afterFirst]
    rw [dropWhile_cons_of_neg (by decide), takeWhile_cons_of_neg (by decide)]
    simp only [append_nil, if_neg hne]
    rw [dropWhile_append_of_pos hclose, takeWhile_append_of_pos hclose]
    simp

/-! ### The whole text -/

/-- What the loop makes of the items: the mode in force goes on behind an item without a file. -/
def includesInForce : MergeMode → IncludeItemText → List (Separator × IncludeItemText) →
    List IncludeStmt
  | merge, item, [] => if item.file = [] then [] else [⟨merge, item.toIncludeName⟩]
  | merge, item, (sep, next) :: rest =>
    if item.file = [] then includesInForce merge next rest
    else ⟨merge, item.toIncludeName⟩ :: includesInForce sep.mode next rest

theorem includeLoop_nil : includeLoop fuel merge [] = some [] := by
  cases fuel with
  | zero => rfl
  | succ fuel => rw [includeLoop, if_pos rfl]

theorem includeLoop_text (hfuel : rest.length < fuel) :
    includeLoop fuel merge (item.text ++ restText rest) =
      some (includesInForce merge item rest) := by
  induction rest generalizing fuel merge item with
  | nil =>
    obtain ⟨fuel, rfl⟩ := Nat.exists_eq_add_one_of_ne_zero (ne_of_gt hfuel)
    rw [includeLoop, restText, flatMap_nil, parseIncludeMap_text item (.inl rfl),
      includesInForce, append_nil]
    dsimp only [tail_nil]
    rw [includeLoop_nil]
    split
    · next htext =>
      have hfile : item.file = [] := (append_eq_nil_iff.mp (append_eq_nil_iff.mp htext).1).1
      rw [if_pos hfile]
    · split <;> rfl
  | cons next rest ih =>
    obtain ⟨sep, next⟩ := next
    obtain ⟨fuel, rfl⟩ := Nat.exists_eq_add_one_of_ne_zero (ne_of_gt (Nat.zero_lt_of_lt hfuel))
    rw [length_cons, Nat.add_lt_add_iff_right] at hfuel
    have hcons : restText ((sep, next) :: rest) = sep.char :: (next.text ++ restText rest) := by
      rw [restText, flatMap_cons, cons_append]
      rfl
    rw [includeLoop, hcons, if_neg (by simp),
      parseIncludeMap_text item (.inr ⟨_, _, rfl, isMergeModePrefix_char⟩), includesInForce]
    dsimp only [tail_cons]
    rw [ih merge next hfuel, mergeOfPrefix_char, ih sep.mode next hfuel, Option.map_some]
    split <;> rfl

/-! ### The documented modes -/

theorem documentedIncludes_cons (next : IncludeItemText) :
    documentedIncludes merge item ((sep, next) :: rest) =
      (if item.file = [] then [] else [⟨merge, item.toIncludeName⟩]) ++
        documentedIncludes sep.mode next rest := by
  rw [documentedIncludes, map_cons, filter_cons, documentedIncludes]
  split <;> simp_all

/-- The statements have the documented modes exactly if the modes are kept behind the items
without a file. -/
theorem includesInForce_eq_iff :
    includesInForce merge item rest = documentedIncludes merge item rest ↔
      KeepsModes merge item rest := by
  induction rest generalizing merge item with
  | nil =>
    refine iff_of_true ?_ trivial
    rw [includesInForce, documentedIncludes, map_nil, filter_cons]
    split <;> simp_all
  | cons next rest ih =>
    obtain ⟨sep, next⟩ := next
    rw [documentedIncludes_cons, includesInForce, KeepsModes]
    by_cases hitem : item.file = []
    · simp only [if_pos hitem, nil_append]
      by_cases hnext : next.file = []
      · -- the mode of an item without a file does not matter
        have hmode :
            documentedIncludes sep.mode next rest = documentedIncludes merge next rest := by
          rw [documentedIncludes, documentedIncludes, filter_cons_of_neg (by simp [hnext]),
            filter_cons_of_neg (by simp [hnext])]
        rw [hmode, ih]
        simp [hnext]
      · rw [← ih]
        constructor
        · intro h
          have hmode : merge = sep.mode := by
            have hhead := congrArg (fun l => l.head?.map IncludeStmt.merge) h
            cases rest <;> simpa [includesInForce, documentedIncludes, hnext] using hhead
          exact ⟨fun _ => hmode, hmode ▸ h⟩
        · rintro ⟨hmode, h⟩
          rw [h, hmode hnext]
    · simp only [if_neg hitem, singleton_append, List.cons.injEq, true_and, ih, implies_true]

/-- **The include items have the documented modes exactly if those behind an item without a file
have the separator that was in force there.** Their files, maps and extra texts are always read as
they are written. -/
theorem includeCreate_eq_iff :
    includeCreate (item.text ++ restText rest) merge = some (documentedIncludes merge item rest) ↔
      KeepsModes merge item rest := by
  have hlength : rest.length ≤ (restText rest).length := by
    induction rest with
    | nil => exact Nat.zero_le _
    | cons next rest ih =>
      rw [restText, flatMap_cons, length_append, length_cons, length_cons]
      rw [restText] at ih
      omega
  rw [includeCreate, includeLoop_text _ _ _ (by rw [length_append]; omega),
    Option.some.injEq, includesInForce_eq_iff]

/-- An item that is only a file. -/
def fileItem (file : List UInt8)
    (h : ∀ c ∈ file, isMergeModePrefix c = false ∧ c ≠ 0x3a ∧ c ≠ 0x28) : IncludeItemText where
  file := file
  map := none
  extraData := none
  file_chars := h
  map_chars := by simp
  extra_chars := by simp
  map_file := fun _ => rfl

/-- In `us+|fr` the file `fr` overrides, since the loop skips the item without a file together
with the separator that follows it. It should augment. -/
theorem includeCreate_skipped :
    let us := fileItem (ascii "us") (by decide +kernel)
    let fr := fileItem (ascii "fr") (by decide +kernel)
    let rest := [(.plus, fileItem [] (by simp)), (.bar, fr)]
    us.text ++ restText rest = ascii "us+|fr" ∧
      includeCreate (ascii "us+|fr") .default =
        some [⟨.default, us.toIncludeName⟩, ⟨.override, fr.toIncludeName⟩] ∧
      documentedIncludes .default us rest =
        [⟨.default, us.toIncludeName⟩, ⟨.augment, fr.toIncludeName⟩] := by
  decide +kernel

end Xkbcommon.Xkbcomp
