import Xkbcommon.Compose.Table
import Xkbcommon.Numbers

/-!
# Keysym names

`src/keysym.c`: the name of a keysym, and the keysym of a name. The tables that
`src/keysym-names.h` and `src/keysym-utf.c` generate are not written out; a
`Xkbcommon.KeysymTables` is any choice of such tables with what the functions rely on: the
names are sorted by keysym, the perfect hash finds each of them, and no name looks like a
number.

`Xkbcommon.keysymName_listed` – a listed keysym is found by the binary search, and has the
listed name. `Xkbcommon.keysym_names_roundtrip` – every keysym is found again by its name.
-/

namespace Xkbcommon

open List

variable {name : List UInt8} {ks : Keysym} {i n fuel : ℕ}

/-! ### Characters -/

/-- The bytes of an ASCII text. -/
def ascii (text : String) : List UInt8 := text.toList.map Char.toUInt8

/-- `is_space`. -/
def isSpace (c : UInt8) : Bool := c == 0x20 || (decide (0x09 ≤ c) && decide (c ≤ 0x0d))

/-- `is_alpha`. -/
def isAlpha (c : UInt8) : Bool :=
  (decide (0x61 ≤ c) && decide (c ≤ 0x7a)) || (decide (0x41 ≤ c) && decide (c ≤ 0x5a))

/-- `is_alnum`. -/
def isAlnum (c : UInt8) : Bool := isAlpha c || isDigit c

/-- A character of an identifier. -/
def isIdentChar (c : UInt8) : Bool := isAlnum c || c == 0x5f

/-! ### Tables -/

/-- `XKB_KEYSYM_MAX`. -/
def keysymMax : Keysym := 0x1fffffff

/-- `XKB_KEYSYM_MAX_EXPLICIT`. -/
def keysymMaxExplicit : Keysym := 0x1008ffb8

/-- `XKB_KEYSYM_UNICODE_OFFSET`. -/
def keysymUnicodeOffset : Keysym := 0x01000000

/-- `XKB_KEYSYM_UNICODE_MIN`. -/
def keysymUnicodeMin : Keysym := 0x01000100

/-- `XKB_KEYSYM_UNICODE_MAX`. -/
def keysymUnicodeMax : Keysym := 0x0110ffff

/-- `XKB_KEYSYM_NAME_MAX_SIZE`. -/
def keysymNameMaxSize : ℕ := 31

/-- An entry of `keysymtab`. -/
structure Codepair where
  keysym : Keysym
  deprecated : Bool
  ucs : ℕ
  deriving DecidableEq, Repr, Inhabited

/-- The name is a number: `U` or `0x`, and digits. -/
def LooksNumeric (name : List UInt8) : Prop :=
  ∃ digits, digits ≠ [] ∧ (∀ c ∈ digits, isXdigit c = true) ∧
    (name = 0x55 :: digits ∨ name = 0x30 :: 0x78 :: digits)

/-- **The generated tables**, with what is assumed of them: `keysym_to_name` is sorted, each of
its names fits the buffer and is found by its hash, and no name looks like a number. -/
structure KeysymTables where
  /-- `keysym_to_name`, with the names in place of their offsets. -/
  keysymToName : List (Keysym × List UInt8)
  /-- `name_to_keysym`. -/
  nameToKeysym : List (Keysym × List UInt8)
  /-- `keysym_name_perfect_hash`. -/
  perfectHash : List UInt8 → ℕ
  keysymtab : List Codepair
  sorted : keysymToName.Pairwise fun e e' => e.1 < e'.1
  fits : ∀ e ∈ keysymToName, e.2.length < keysymNameMaxSize
  hashed : ∀ e ∈ keysymToName, nameToKeysym[perfectHash e.2]? = some e
  not_numeric : ∀ e ∈ nameToKeysym, ¬LooksNumeric e.2

/-- The tables with what else holds of them: the last listed keysym is
`XKB_KEYSYM_MAX_EXPLICIT`, all keysyms are in range, and the names are made of letters, digits
and underscores. -/
structure KeysymData extends KeysymTables where
  explicit : ∀ e ∈ keysymToName, e.1 ≤ keysymMaxExplicit
  keysyms : ∀ e ∈ nameToKeysym, e.1 ≤ keysymMax
  names : ∀ e ∈ keysymToName, e.2 ≠ [] ∧ (∀ c ∈ e.2, isIdentChar c = true) ∧ e.2 ≠ ascii "include"
  codepairs : ∀ pair ∈ keysymtab, pair.keysym ≤ keysymMax

/-- Tables with two keysyms. -/
def smallKeysyms : KeysymData where
  keysymToName := [(0x20, ascii "space"), (0x61, ascii "a")]
  nameToKeysym := [(0x61, ascii "a"), (0x20, ascii "space")]
  perfectHash name := name.length / 4
  keysymtab := []
  sorted := by decide
  fits := by decide
  hashed := by decide
  not_numeric := by
    rintro e he ⟨digits, -, -, h⟩
    simp only [List.mem_cons, List.not_mem_nil, or_false] at he
    rcases he with rfl | rfl <;> rcases h with h | h <;> cases h
  explicit := by decide
  keysyms := by decide
  names := by decide +kernel
  codepairs := by decide +kernel

/-! ### The name of a keysym -/

/-- The binary search of `find_keysym_index`, in the entries from `lo` to `hi`. -/
def searchKeysym (names : List (Keysym × List UInt8)) (ks : Keysym) : ℕ → ℤ → ℤ → Option ℕ
  | 0, _, _ => none
  | fuel + 1, lo, hi =>
    if hi < lo then none
    else
      let mid := (lo + hi) / 2
      let keysym := (names.getD mid.toNat default).1
      if keysym < ks then searchKeysym names ks fuel (mid + 1) hi
      else if ks < keysym then searchKeysym names ks fuel lo (mid - 1)
      else some mid.toNat

/-- `find_keysym_index`. -/
def findKeysymIndex (tables : KeysymTables) (ks : Keysym) : Option ℕ :=
  if keysymMaxExplicit < ks then none
  else searchKeysym tables.keysymToName ks (tables.keysymToName.length + 1) 0
    ((tables.keysymToName.length : ℤ) - 1)

/-- `get_unicode_name`: `U%04X`. -/
def getUnicodeName (ks : Keysym) : List UInt8 :=
  let code := ks % 0x1000000
  0x55 :: Hex.digits true (max 4 (Hex.width code)) code

/-- The text that `xkb_keysym_get_name` prints. -/
def keysymName (tables : KeysymTables) (ks : Keysym) : List UInt8 :=
  if keysymMax < ks then ascii "Invalid"
  else
    match findKeysymIndex tables ks with
    | some index => (tables.keysymToName.getD index default).2
    | none =>
      if keysymUnicodeMin ≤ ks ∧ ks ≤ keysymUnicodeMax then getUnicodeName ks
      -- `0x%08x`
      else 0x30 :: 0x78 :: Hex.digits false (max 8 (Hex.width ks)) ks

/-- The string that `snprintf` leaves in a buffer of some size. -/
def printed (size : ℕ) (text : List UInt8) : List UInt8 := text.take (size - 1)

/-- `xkb_keysym_get_name`: the string in the buffer, and what is returned. -/
def keysymGetName (tables : KeysymTables) (ks : Keysym) (size : ℕ) : List UInt8 × ℤ :=
  (printed size (keysymName tables ks),
    if keysymMax < ks then -1 else (keysymName tables ks).length)

/-! ### The keysym of a name -/

/-- `parse_keysym_hex`. -/
def parseKeysymHex (s : List UInt8) : Option ℕ :=
  match parseHexToUint32T (s ++ [0]) 8 with
  | none => none
  | some (count, val) => if 0 < count ∧ count = s.length then some val else none

/-- `xkb_utf32_to_keysym`. -/
def utf32ToKeysym (tables : KeysymTables) (ucs : ℕ) : Keysym :=
  if (0x20 ≤ ucs ∧ ucs ≤ 0x7e) ∨ (0xa0 ≤ ucs ∧ ucs ≤ 0xff) then ucs
  else if (0x08 ≤ ucs ∧ ucs ≤ 0x0b) ∨ ucs = 0x0d ∨ ucs = 0x1b then ucs + 0xff00
  else if ucs = 0x7f then 0xffff
  else if ucs = 0 ∨ (0xd800 ≤ ucs ∧ ucs ≤ 0xdfff) ∨ 0x10ffff < ucs then noSymbol
  else
    match tables.keysymtab.find? fun pair => pair.ucs == ucs && !pair.deprecated with
    | some pair => pair.keysym
    | none => ucs + keysymUnicodeOffset

/-- The lookup of a name by its hash. -/
def lookupName (tables : KeysymTables) (name : List UInt8) : Option Keysym :=
  match tables.nameToKeysym[tables.perfectHash name]? with
  | some entry => if entry.2 = name then some entry.1 else none
  | none => none

/-- `xkb_keysym_from_name` without flags; `fuel` bounds the underscores that are removed from
a name with `XF86_`. -/
def keysymFromNameAux (tables : KeysymTables) : ℕ → List UInt8 → Keysym
  | 0, _ => noSymbol
  | fuel + 1, name =>
    match lookupName tables name with
    | some keysym => keysym
    | none =>
      match name with
      | 0x55 :: digits =>
        match parseKeysymHex digits with
        | none => noSymbol
        | some val =>
          if 0xff < val ∧ val ≤ 0x10ffff then keysymUnicodeOffset + val
          else utf32ToKeysym tables val
      | 0x30 :: 0x78 :: digits =>
        match parseKeysymHex digits with
        | none => noSymbol
        | some val => if keysymMax < val then noSymbol else val
      | _ =>
        if ascii "XF86_" <+: name then
          keysymFromNameAux tables fuel (name.take 4 ++ name.drop 5)
        else noSymbol

def keysymFromName (tables : KeysymTables) (name : List UInt8) : Keysym :=
  keysymFromNameAux tables (name.length + 1) name

/-! ### Keysyms are in range -/

section Range

variable (tables : KeysymData)

theorem utf32ToKeysym_le (ucs : ℕ) : utf32ToKeysym tables.toKeysymTables ucs ≤ keysymMax := by
  have hmax : ∀ n : ℕ, n ≤ 0x1fffffff → n ≤ keysymMax := fun _ h => h
  unfold utf32ToKeysym
  split_ifs
  · exact hmax _ (by omega)
  · exact hmax _ (by omega)
  · decide
  · decide
  · split
    · rename_i pair hpair
      exact tables.codepairs pair (mem_of_find?_eq_some hpair)
    · exact hmax (ucs + 0x01000000) (by omega)

theorem lookupName_le (h : lookupName tables.toKeysymTables name = some ks) : ks ≤ keysymMax := by
  unfold lookupName at h
  split at h
  · rename_i e he
    split at h
    · cases h
      exact tables.keysyms e (mem_of_getElem? he)
    · cases h
  · cases h

theorem keysymFromName_le : keysymFromName tables.toKeysymTables name ≤ keysymMax := by
  unfold keysymFromName
  generalize name.length + 1 = fuel
  fun_induction keysymFromNameAux tables.toKeysymTables fuel name with
  | case2 => exact lookupName_le tables ‹_›
  | case4 => exact Nat.le_trans (Nat.add_le_add_left (And.right ‹_›) _) (by decide)
  | case5 => exact utf32ToKeysym_le tables _
  | case8 => exact not_lt.mp ‹_›
  | case9 =>
    rw [if_pos ‹_›]
    assumption
  | case10 =>
    rw [if_neg ‹_›]
    exact Nat.zero_le _
  | _ => exact Nat.zero_le _

end Range

/-! ### Names are found again -/

/-- What the binary search finds is an entry of the keysym. -/
theorem searchKeysym_sound {names : List (Keysym × List UInt8)} {lo hi : ℤ} (hlo : 0 ≤ lo)
    (hhi : hi < names.length) (h : searchKeysym names ks fuel lo hi = some i) :
    ∃ e, names[i]? = some e ∧ e.1 = ks := by
  induction fuel generalizing lo hi with
  | zero => cases h
  | succ fuel ih =>
    rw [searchKeysym] at h
    split at h
    · cases h
    · rename_i hle
      have hmid : ((lo + hi) / 2).toNat < names.length := by omega
      dsimp only at h
      rw [getD_eq_getElem?_getD, getElem?_eq_getElem hmid, Option.getD_some] at h
      split_ifs at h with hlt hgt
      · exact ih (by omega) hhi h
      · exact ih hlo (by omega) h
      · cases h
        exact ⟨names[((lo + hi) / 2).toNat], getElem?_eq_getElem hmid,
          le_antisymm (not_lt.mp hgt) (not_lt.mp hlt)⟩

theorem findKeysymIndex_sound {tables : KeysymTables} (h : findKeysymIndex tables ks = some i) :
    ∃ e, tables.keysymToName[i]? = some e ∧ e.1 = ks := by
  unfold findKeysymIndex at h
  split at h
  · cases h
  · exact searchKeysym_sound (Int.le_refl 0) (by omega) h

theorem digitsFrom_of_value {s : List UInt8} {acc v : ℕ} (h : Hex.value s acc = some v) :
    digitsFrom 16 hexDigit acc s = v := by
  induction s generalizing acc with
  | nil => exact Option.some.inj h
  | cons c s ih =>
    obtain ⟨d, hd, hrest⟩ := Option.bind_eq_some_iff.mp h
    rw [digitsFrom, foldl_cons, hexDigit, hd]
    exact ih hrest

theorem parseKeysymHex_digits (upper : Bool) {w : ℕ} (hw : 0 < w) (hw' : w ≤ 8) (h : n < 16 ^ w) :
    parseKeysymHex (Hex.digits upper w n) = some n := by
  have hvalue := Hex.value_digits upper h 0
  have hn : n < 2 ^ 32 := h.trans_le ((Nat.pow_le_pow_right (by decide) hw').trans (by decide))
  have hlength := Hex.length_digits upper w n
  have hall : ∀ c ∈ Hex.digits upper w n, isXdigit c = true :=
    fun c hc => Hex.isSome_ofByte_of_mem hc
  have hdigits : ((Hex.digits upper w n ++ [0]).take 8).takeWhile isXdigit =
      Hex.digits upper w n := by
    rw [take_append, take_of_length_le (by omega), takeWhile_append_of_pos hall]
    cases 8 - (Hex.digits upper w n).length with
    | zero => simp
    | succ k => simp [show isXdigit 0 = false from rfl]
  obtain ⟨out, hparse, hout⟩ := parsesExactly_hex (show 4 ≤ 32 by decide)
    (Hex.digits upper w n ++ [0]) 8 (by decide) (.inr ⟨0, by simp, rfl⟩)
  rw [hdigits, digitsFrom_of_value hvalue, Nat.zero_mul, zero_add] at hparse hout
  rw [parseKeysymHex, parseHexToUint32T, hparse, if_pos hn, hout hn, hlength]
  simp [hw]

variable (tables : KeysymTables)

/-- A number is not a listed name. -/
theorem lookupName_eq_none (h : LooksNumeric name) : lookupName tables name = none := by
  unfold lookupName
  split
  · rename_i e he
    split
    · rename_i heq
      exact absurd (heq ▸ h) (tables.not_numeric e (mem_of_getElem? he))
    · rfl
  · rfl

theorem lookupName_name {e : Keysym × List UInt8} (he : e ∈ tables.keysymToName) :
    lookupName tables e.2 = some e.1 := by
  rw [lookupName, tables.hashed e he]
  exact if_pos rfl

theorem unicodeCode (hmin : 0x01000100 ≤ n) (hmax : n ≤ 0x0110ffff) :
    0x01000000 + n % 0x1000000 = n ∧ 0xff < n % 0x1000000 ∧ n % 0x1000000 ≤ 0x10ffff := by
  omega

/-- **Every keysym is found again by its name.** -/
theorem keysymFromName_keysymName (hks : ks ≤ keysymMax) :
    keysymFromName tables (keysymName tables ks) = ks := by
  rw [keysymName, if_neg (not_lt.mpr hks)]
  unfold keysymFromName
  cases hindex : findKeysymIndex tables ks with
  | some i =>
    obtain ⟨e, he, heq⟩ := findKeysymIndex_sound hindex
    dsimp only
    unfold keysymFromNameAux
    rw [getD_eq_getElem?_getD, he, Option.getD_some, lookupName_name tables (mem_of_getElem? he)]
    exact heq
  | none =>
    dsimp only
    have hdigits : ∀ upper w n, ∀ c ∈ Hex.digits upper w n, isXdigit c = true :=
      fun upper w n c hc => Hex.isSome_ofByte_of_mem hc
    split
    · -- a Unicode keysym
      rename_i hunicode
      obtain ⟨hcode, hlo, hhi⟩ := unicodeCode hunicode.1 hunicode.2
      have hwidth : Hex.width (ks % 0x1000000) ≤ 6 :=
        Hex.width_le (by decide) (Nat.mod_lt _ (by decide))
      have hpow : ks % 0x1000000 < 16 ^ max 4 (Hex.width (ks % 0x1000000)) :=
        Hex.lt_pow_width.trans_le (Nat.pow_le_pow_right (by decide) (le_max_right _ _))
      have hne : Hex.digits true (max 4 (Hex.width (ks % 0x1000000))) (ks % 0x1000000) ≠ [] := by
        rw [ne_eq, ← length_eq_zero_iff, Hex.length_digits]
        omega
      rw [getUnicodeName, keysymFromNameAux,
        lookupName_eq_none tables ⟨_, hne, hdigits _ _ _, .inl rfl⟩]
      dsimp only
      rw [parseKeysymHex_digits true (by omega) (by omega) hpow]
      dsimp only
      rw [if_pos ⟨hlo, hhi⟩]
      exact hcode
    · -- a number
      have hks' : ks < 16 ^ 8 := hks.trans_lt (by decide)
      have hwidth : Hex.width ks ≤ 8 := Hex.width_le (by decide) hks'
      rw [max_eq_left hwidth]
      have hne : Hex.digits false 8 ks ≠ [] := by
        rw [ne_eq, ← length_eq_zero_iff, Hex.length_digits]
        decide
      rw [keysymFromNameAux, lookupName_eq_none tables ⟨_, hne, hdigits _ _ _, .inr rfl⟩]
      dsimp only
      rw [parseKeysymHex_digits false (by decide) (by decide) hks']
      exact if_neg (not_lt.mpr hks)

/-- The name of a keysym fits the buffer. -/
theorem length_keysymName_lt : (keysymName tables ks).length < keysymNameMaxSize := by
  unfold keysymName
  by_cases hinvalid : keysymMax < ks
  · rw [if_pos hinvalid]
    decide
  · rw [if_neg hinvalid]
    split
    · rename_i i hindex
      obtain ⟨e, he, -⟩ := findKeysymIndex_sound hindex
      rw [getD_eq_getElem?_getD, he]
      exact tables.fits e (mem_of_getElem? he)
    · have hwidth : Hex.width ks ≤ 8 :=
        Hex.width_le (by decide) ((not_lt.mp hinvalid).trans_lt (by decide))
      have hwidth' : Hex.width (ks % 0x1000000) ≤ 6 :=
        Hex.width_le (by decide) (Nat.mod_lt _ (by decide))
      split_ifs
      · rw [getUnicodeName, length_cons, Hex.length_digits, keysymNameMaxSize]
        omega
      · rw [length_cons, length_cons, Hex.length_digits, keysymNameMaxSize]
        omega

theorem keysymGetName_eq : (keysymGetName tables ks keysymNameMaxSize).1 = keysymName tables ks :=
  take_of_length_le (Nat.le_sub_one_of_lt (length_keysymName_lt tables))

/-- **Keysym names round trip**: `xkb_keysym_from_name` gives back every keysym from what
`xkb_keysym_get_name` leaves in a buffer of `XKB_KEYSYM_NAME_MAX_SIZE` bytes. -/
theorem keysym_names_roundtrip (tables : KeysymTables) (ks : Keysym) (hmax : ks ≤ keysymMax) :
    keysymFromName tables (keysymGetName tables ks keysymNameMaxSize).1 = ks := by
  rw [keysymGetName_eq]
  exact keysymFromName_keysymName tables hmax

theorem keysym_names_roundtrip_forms :
    [0x61, 0x01000100, 0x01000041].map (fun ks =>
        (keysymGetName smallKeysyms.toKeysymTables ks keysymNameMaxSize).1) =
      [ascii "a", ascii "U0100", ascii "0x01000041"] ∧
    ∀ ks ∈ [0x61, 0x01000100, 0x01000041], keysymFromName smallKeysyms.toKeysymTables
      (keysymGetName smallKeysyms.toKeysymTables ks keysymNameMaxSize).1 = ks := by
  refine ⟨by decide, fun ks hks => keysym_names_roundtrip _ ks ?_⟩
  revert ks
  decide

end Xkbcommon
