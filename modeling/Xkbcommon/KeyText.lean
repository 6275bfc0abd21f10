import Mathlib.Data.FinEnum
import Xkbcommon.Keysyms
import Xkbcommon.Server
import Xkbcommon.Utf8

/-!
# The keysyms and the text of a key

`xkb_state_key_get_syms` and `xkb_state_key_get_utf8` of `src/state.c`. The keysyms of the
current level of a key are capitalised when Caps Lock is active and the key does not consume
it. The text of the key is the UTF-8 form of its keysyms, one after the other; a single ASCII
character becomes a control character when Control is active.

The text is written to a buffer of the caller, whose bytes are unknown until they are written.
A buffer that is too small is cut one byte before its end, wherever that is: between two
keysyms the buffer holds a valid prefix of the text, and everywhere else it ends within a
character or in bytes that were never written (`Xkbcommon.utf8_truncation`).

The tables of upper case keysyms (`src/keysym-case-mappings.c`) are a parameter.
-/

namespace Xkbcommon

open Masks List

variable {table : List Codepair} {texts : List (List UInt8)} {buffer text : List UInt8}
  {syms : List Keysym}

/-! ### Consumed modifiers -/

/-- `XKB_MOD_INDEX_CAPS`. -/
def xkbModIndexCaps : ℕ := 1

/-- `XKB_MOD_INDEX_CTRL`. -/
def xkbModIndexCtrl : ℕ := 2

variable (km : XkbKeymap)

variable (state : XkbState) (kc : ℕ) {ks : Keysym} {size : ℕ}

/-- `xkb_state_mod_index_is_active`. -/
def xkbStateModIndexIsActive (idx : ℕ) (type : BitVec 32) : ℤ :=
  match km.mods[idx]? with
  | none => -1
  | some mapping =>
    -- the modifier may be not mapped
    if mapping = 0#32 then 0
    else if serializeMods state.components type &&& mapping = mapping then 1
    else 0

/-- `key_get_consumed`, in the mode `XKB_CONSUMED_MODE_XKB`. -/
def keyGetConsumed (key : XkbKey) : BitVec 32 :=
  match (keyOf km key.keycode).bind fun ref => stateKeyGetLayout state ref.key with
  | none => 0#32
  | some layout =>
    match key.groups[layout]? with
    | none => 0#32
    | some group =>
      let active := state.components.mods &&& group.type.mods.mask
      let preserve := ((getEntryForMods group.type active).map (·.preserve.mask)).getD 0#32
      group.type.mods.mask &&& ~~~preserve

/-- `xkb_state_mod_index_is_consumed`. -/
def xkbStateModIndexIsConsumed (idx : ℕ) : ℤ :=
  match keyOf km kc, km.mods[idx]? with
  | some ref, some mapping =>
    if mapping = 0#32 then 0
    else if mapping &&& keyGetConsumed km state ref.key = mapping then 1
    else 0
  | _, _ => -1

/-- A modifier that is active and not consumed by the key. -/
def shouldDoTransformation (idx : ℕ) : Bool :=
  decide (0 < xkbStateModIndexIsActive km state idx xkbStateModsEffective) &&
    xkbStateModIndexIsConsumed km state kc idx == 0

/-- `should_do_caps_transformation`. -/
def shouldDoCapsTransformation : Bool :=
  shouldDoTransformation km state kc xkbModIndexCaps

/-- `should_do_ctrl_transformation`. -/
def shouldDoCtrlTransformation : Bool :=
  shouldDoTransformation km state kc xkbModIndexCtrl

/-! ### Keysyms -/

/-- `xkb_keymap_key_get_level`. -/
def xkbKeymapKeyGetLevel (key : XkbKey) (layout level : ℕ) : Option XkbLevel :=
  match xkbKeymapKeyEffectiveLayout key layout with
  | none => none
  | some layout =>
    match key.groups[layout]? with
    | none => none
    | some group => if group.type.numLevels ≤ level then none else group.levels[level]?

/-- `xkb_keymap_key_get_syms_by_level`; the empty list is the count 0. -/
def xkbKeymapKeyGetSymsByLevel (layout level : ℕ) : List Keysym :=
  match keyOf km kc with
  | none => []
  | some ref => ((xkbKeymapKeyGetLevel ref.key layout level).map XkbLevel.syms).getD []

/-- `xkb_state_key_get_layout`. -/
def xkbStateKeyGetLayout : Option ℕ :=
  (keyOf km kc).bind fun ref => stateKeyGetLayout state ref.key

/-- `xkb_state_key_get_level`. -/
def xkbStateKeyGetLevel (layout : ℕ) : Option ℕ :=
  (keyOf km kc).bind fun ref => stateKeyGetLevel state ref.key layout

/-- **`xkb_state_key_get_syms`.** -/
def xkbStateKeyGetSyms : List Keysym :=
  match xkbStateKeyGetLayout km state kc with
  | none => []
  | some layout =>
    match xkbStateKeyGetLevel km state kc layout, keyOf km kc with
    | some level, some ref =>
      match xkbKeymapKeyGetLevel ref.key layout level with
      | none => []
      | some level =>
        if level.syms = [] then []
        else if shouldDoCapsTransformation km state kc then
          if 1 < level.syms.length ∧ level.hasUpper = false then level.syms else level.upper
        else level.syms
    | _, _ => []

/-- The loop of `get_one_sym_for_string` over the layouts, for a layout with a single ASCII
keysym. -/
def asciiSymOfLayouts (numLayouts : ℕ) : Option Keysym :=
  (List.range numLayouts).findSome? fun layout =>
    match xkbStateKeyGetLevel km state kc layout with
    | none => none
    | some level =>
      match xkbKeymapKeyGetSymsByLevel km kc layout level with
      | [sym] => if sym ≤ 127 then some sym else none
      | _ => none

/-- `get_one_sym_for_string`. -/
def getOneSymForString (toUpper : Keysym → Keysym) (km : XkbKeymap) (state : XkbState) (kc : ℕ) :
    Keysym :=
  match keyOf km kc, xkbStateKeyGetLayout km state kc with
  | some ref, some layout =>
    match xkbStateKeyGetLevel km state kc layout with
    | none => noSymbol
    | some level =>
      match xkbKeymapKeyGetSymsByLevel km kc layout level with
      | [sym] =>
        let sym :=
          if shouldDoCtrlTransformation km state kc ∧ 127 < sym then
            (asciiSymOfLayouts km state kc ref.key.groups.length).getD sym
          else sym
        if shouldDoCapsTransformation km state kc then toUpper sym else sym
      | _ => noSymbol
  | _, _ => noSymbol

/-! ### The text of a keysym -/

/-- `bin_search`, in the entries from `first` to `last`. -/
def binSearch (table : List Codepair) (ks : Keysym) : ℕ → ℤ → ℤ → ℕ
  | 0, _, _ => 0
  | fuel + 1, first, last =>
    if first ≤ last then
      let mid := ((first + last) / 2).toNat
      match table[mid]? with
      | none => 0
      | some entry =>
        if entry.keysym < ks then binSearch table ks fuel (mid + 1) last
        else if ks < entry.keysym then binSearch table ks fuel first (mid - 1)
        else entry.ucs
    else 0

/-- The search of the table, if the keysym is in its range. -/
def keysymtabUcs (table : List Codepair) (ks : Keysym) : ℕ :=
  match table.head?, table.getLast? with
  | some first, some last =>
    if ks < first.keysym ∨ last.keysym < ks then 0
    else binSearch table ks table.length 0 (table.length - 1)
  | _, _ => 0

/-- `xkb_keysym_to_utf32`; `0` is `NO_KEYSYM_UNICODE_CONVERSION`. -/
def keysymToUtf32 (table : List Codepair) (ks : Keysym) : ℕ :=
  -- Latin-1
  if (0x20 ≤ ks ∧ ks ≤ 0x7e) ∨ (0xa0 ≤ ks ∧ ks ≤ 0xff) then ks
  -- `KP_Space`
  else if ks = 0xff80 then 0x20
  -- from `BackSpace` to `Clear`, from `KP_Multiply` to `KP_9`, `Return`, `Escape`, `Delete`,
  -- `KP_Tab`, `KP_Enter` and `KP_Equal`
  else if (0xff08 ≤ ks ∧ ks ≤ 0xff0b) ∨ (0xffaa ≤ ks ∧ ks ≤ 0xffb9) ∨ ks = 0xff0d ∨ ks = 0xff1b ∨
      ks = 0xffff ∨ ks = 0xff89 ∨ ks = 0xff8d ∨ ks = 0xffbd then ks % 0x80
  -- surrogates
  else if 0x0100d800 ≤ ks ∧ ks ≤ 0x0100dfff then 0
  else if keysymUnicodeOffset ≤ ks ∧ ks ≤ keysymUnicodeMax then ks - keysymUnicodeOffset
  -- from `XF86Numeric0` to `XF86Numeric9`, `XF86NumericStar` and `XF86NumericPound`
  else if 0x10081200 ≤ ks ∧ ks ≤ 0x10081209 then ks - 0x10081200 + 0x30
  else if ks = 0x1008120a then 0x2a
  else if ks = 0x1008120b then 0x23
  else keysymtabUcs table ks

/-- `xkb_keysym_to_utf8`, without the final NUL; `[]` if there is no text. -/
def keysymToUtf8 (table : List Codepair) (ks : Keysym) : List UInt8 :=
  if keysymToUtf32 table ks = 0 then [] else utf32ToUtf8 (keysymToUtf32 table ks)

/-! ### The text of a key -/

/-- `XkbToControl`. -/
def xkbToControl (c : UInt8) : UInt8 :=
  if (0x40 ≤ c ∧ c < 0x7f) ∨ c = 0x20 then c &&& 0x1f
  else if c = 0x32 then 0
  else if 0x33 ≤ c ∧ c ≤ 0x37 then c - (0x33 - 0x1b)
  else if c = 0x38 then 0x7f
  else if c = 0x2f then 0x5f &&& 0x1f
  else c

/-- The bytes of a buffer from an offset on, overwritten. -/
def copyAt (buffer : List UInt8) (offset : ℕ) (text : List UInt8) : List UInt8 :=
  buffer.take offset ++ text ++ buffer.drop (offset + text.length)

/-- The loop of `xkb_state_key_get_utf8`: the length of the text and the buffer, or the buffer
alone if some keysym has no text. -/
def utf8Loop (table : List Codepair) :
    List Keysym → ℕ → List UInt8 → Except (List UInt8) (ℕ × List UInt8)
  | [], offset, buffer => .ok (offset, buffer)
  | sym :: syms, offset, buffer =>
    let text := keysymToUtf8 table sym
    if text = [] then .error buffer
    else
      utf8Loop table syms (offset + text.length)
        (if offset + text.length ≤ buffer.length then copyAt buffer offset text else buffer)

section

variable (toUpper : Keysym → Keysym) (table : List Codepair) (km : XkbKeymap) (state : XkbState)
  (kc : ℕ)

/-- The keysyms whose text `xkb_state_key_get_utf8` writes. -/
def symsForString : List Keysym :=
  if getOneSymForString toUpper km state kc ≠ noSymbol then [getOneSymForString toUpper km state kc]
  else xkbStateKeyGetSyms km state kc

/-- **`xkb_state_key_get_utf8`**: the length that it returns and what it leaves in the buffer. -/
def xkbStateKeyGetUtf8 (buffer : List UInt8) : ℕ × List UInt8 :=
  match utf8Loop table (symsForString toUpper km state kc) 0 buffer with
  | .error buffer => (0, buffer.set 0 0)
  | .ok (offset, buffer) =>
    if buffer.length ≤ offset then (offset, buffer.set (buffer.length - 1) 0)
    else
      let buffer := buffer.set offset 0
      if isValidUtf8 (buffer.take offset) = false then (0, buffer.set 0 0)
      else if offset = 1 ∧ (∀ c ∈ buffer.head?, c ≤ 0x7f) ∧ shouldDoCtrlTransformation km state kc
      then (offset, buffer.modifyHead xkbToControl)
      else (offset, buffer)

/-- The texts of the keysyms of a key. -/
def keyTexts : List (List UInt8) := (symsForString toUpper km state kc).map (keysymToUtf8 table)

end

/-! ### Truncation -/

/-- **How a text is to be cut** when it does not fit a buffer of some size: the length that is
returned is that of the whole text, and the buffer holds a valid prefix of it and a NUL. `get`
writes the text to a buffer of unknown bytes, as long as the buffer. -/
def TruncatesText (get : List UInt8 → ℕ × List UInt8) (size : ℕ) : Prop :=
  ∀ buffer buffer' : List UInt8, buffer.length = size →
    (get buffer).1 = (get buffer').1 ∧
    (0 < size → size ≤ (get buffer).1 → (get buffer').1 < buffer'.length →
      ∃ text rest, (get buffer).2 = text ++ 0 :: rest ∧ text <+: (get buffer').2 ∧
        isValidUtf8 text = true)

/-- The buffer is large enough or ends right after one of the texts, with its final NUL; or
there is nothing to write. -/
def endsAtText (texts : List (List UInt8)) (size : ℕ) : Prop :=
  [] ∈ texts ∨ size = 0 ∨ texts.flatten.length < size ∨
    ∃ k, (texts.take k).flatten.length + 1 = size

theorem isUtf8Sequence_keysymToUtf8 (h : keysymToUtf8 table ks ≠ []) :
    IsUtf8Sequence (keysymToUtf8 table ks) := by
  unfold keysymToUtf8 at h ⊢
  split_ifs at h ⊢
  · exact absurd rfl h
  · exact isUtf8Sequence_utf32ToUtf8 (isScalar_of_utf32ToUtf8 h)

theorem ne_zero_of_mem_keysymToUtf8 {c : UInt8} (h : c ∈ keysymToUtf8 table ks) : c ≠ 0 := by
  unfold keysymToUtf8 at h
  split at h
  · exact absurd h not_mem_nil
  · rename_i hcp
    exact ne_zero_of_mem_utf32ToUtf8 hcp h

/-- Past the end of the buffer nothing is written. -/
theorem utf8Loop_of_lt (h : ∀ sym ∈ syms, keysymToUtf8 table sym ≠ []) {offset : ℕ}
    (hlt : buffer.length < offset) :
    utf8Loop table syms offset buffer =
      .ok (offset + (syms.map (keysymToUtf8 table)).flatten.length, buffer) := by
  induction syms generalizing offset with
  | nil => rfl
  | cons sym syms ih =>
    rw [utf8Loop]
    rw [if_neg (h sym mem_cons_self), if_neg (by omega),
      ih (fun s hs => h s (mem_cons_of_mem _ hs)) (by omega), map_cons,
      flatten_cons, length_append, add_assoc]

/-- The first texts that fit in some bytes, up to the first that does not. -/
def FittingText (texts : List (List UInt8)) (size : ℕ) (text : List UInt8) : Prop :=
  ∃ k, text = (texts.take k).flatten ∧ text.length ≤ size ∧
    (texts.length ≤ k ∨ size < (texts.take (k + 1)).flatten.length)

theorem flatten_take_isPrefix (texts : List (List UInt8)) (k : ℕ) :
    (texts.take k).flatten <+: texts.flatten :=
  ⟨(texts.drop k).flatten, by rw [← flatten_append, take_append_drop]⟩

/-- What ends between two texts and fits is written. -/
theorem FittingText.prefix (h : FittingText texts size text) {j : ℕ}
    (hj : (texts.take j).flatten.length ≤ size) : (texts.take j).flatten <+: text := by
  obtain ⟨k, rfl, -, hmax⟩ := h
  have hle : ∀ {i i' : ℕ}, i ≤ i' → (texts.take i).flatten <+: (texts.take i').flatten := by
    intro i i' hii
    have := flatten_take_isPrefix (texts.take i') i
    rwa [take_take, min_eq_left hii] at this
  rcases lt_or_ge k j with hlt | hge
  · rcases hmax with hmax | hmax
    · rw [take_of_length_le hmax]
      exact flatten_take_isPrefix texts j
    · exact absurd (le_trans (hle hlt).length_le hj) (not_le.mpr hmax)
  · exact hle hge

theorem FittingText.eq_flatten (h : FittingText texts size text)
    (hsize : texts.flatten.length ≤ size) : text = texts.flatten := by
  have hpre := h.prefix (j := texts.length) (by rwa [take_length])
  rw [take_length] at hpre
  obtain ⟨k, rfl, -, -⟩ := h
  exact (flatten_take_isPrefix texts k).eq_of_length_le hpre.length_le

/-- **The loop writes the texts that fit**, up to the first that does not. -/
theorem utf8Loop_eq (h : ∀ sym ∈ syms, keysymToUtf8 table sym ≠ []) (written rest : List UInt8) :
    ∃ text, FittingText (syms.map (keysymToUtf8 table)) rest.length text ∧
      utf8Loop table syms written.length (written ++ rest) =
        .ok (written.length + (syms.map (keysymToUtf8 table)).flatten.length,
          written ++ text ++ rest.drop text.length) := by
  induction syms generalizing written rest with
  | nil => exact ⟨[], ⟨0, rfl, Nat.zero_le _, .inl (le_refl _)⟩, by simp [utf8Loop]⟩
  | cons sym syms ih =>
    have hsym := h sym mem_cons_self
    have hsyms := fun s hs => h s (mem_cons_of_mem sym hs)
    by_cases hfits : (keysymToUtf8 table sym).length ≤ rest.length
    · have hwrite : copyAt (written ++ rest) written.length (keysymToUtf8 table sym) =
          (written ++ keysymToUtf8 table sym) ++ rest.drop (keysymToUtf8 table sym).length := by
        rw [copyAt, take_left, drop_length_add_append]
      obtain ⟨text, ⟨k, htext, hlen, hmax⟩, hloop⟩ :=
        ih hsyms (written ++ keysymToUtf8 table sym) (rest.drop (keysymToUtf8 table sym).length)
      rw [length_drop] at hlen hmax
      refine ⟨keysymToUtf8 table sym ++ text, ⟨k + 1, ?_, ?_, ?_⟩, ?_⟩
      · rw [map_cons, take_succ_cons, flatten_cons, htext]
      · rw [length_append]
        omega
      · rw [map_cons, take_succ_cons, flatten_cons, length_append, length_cons]
        exact hmax.imp (fun hmax => by omega) (fun hmax => by omega)
      · rw [utf8Loop, if_neg hsym, if_pos (by rw [length_append]; omega), hwrite,
          ← length_append, hloop, map_cons, flatten_cons]
        simp only [length_append, drop_drop, append_assoc, add_assoc]
    · refine ⟨[], ⟨0, rfl, Nat.zero_le _, .inr ?_⟩, ?_⟩
      · rw [map_cons, take_succ_cons, take_zero, flatten_cons, flatten_nil, append_nil]
        omega
      · rw [utf8Loop, if_neg hsym, if_neg (by rw [length_append]; omega),
          utf8Loop_of_lt hsyms (by rw [length_append]; omega), map_cons,
          flatten_cons, length_append, add_assoc]
        simp

/-- A keysym without a text ends the loop. -/
theorem utf8Loop_error (h : ∃ sym ∈ syms, keysymToUtf8 table sym = []) (offset : ℕ)
    (buffer : List UInt8) : ∃ buffer', utf8Loop table syms offset buffer = .error buffer' := by
  induction syms generalizing offset buffer with
  | nil => simp at h
  | cons sym syms ih =>
    rw [utf8Loop]
    by_cases hsym : keysymToUtf8 table sym = []
    · exact ⟨buffer, if_pos hsym⟩
    · rw [if_neg hsym]
      refine ih ?_ _ _
      obtain ⟨s, hs, htext⟩ := h
      rcases mem_cons.mp hs with rfl | hs
      · exact absurd htext hsym
      · exact ⟨s, hs, htext⟩

section

variable (toUpper : Keysym → Keysym) (table : List Codepair) (km : XkbKeymap) (state : XkbState)
  (kc : ℕ)

/-- A keysym without a text: nothing is written. -/
theorem xkbStateKeyGetUtf8_of_nil_mem (h : [] ∈ keyTexts toUpper table km state kc)
    (buffer : List UInt8) : (xkbStateKeyGetUtf8 toUpper table km state kc buffer).1 = 0 := by
  rw [keyTexts, mem_map] at h
  obtain ⟨buffer', hloop⟩ := utf8Loop_error h 0 buffer
  rw [xkbStateKeyGetUtf8, hloop]

variable {toUpper table km state kc}

theorem isUtf8Sequence_of_mem_keyTexts (h : [] ∉ keyTexts toUpper table km state kc) :
    ∀ text ∈ keyTexts toUpper table km state kc, IsUtf8Sequence text := by
  intro text htext
  obtain ⟨sym, -, rfl⟩ := mem_map.mp htext
  exact isUtf8Sequence_keysymToUtf8 fun hnil => h (hnil ▸ htext)

theorem utf8Loop_keyTexts (h : [] ∉ keyTexts toUpper table km state kc) :
    ∃ text, FittingText (keyTexts toUpper table km state kc) buffer.length text ∧
      utf8Loop table (symsForString toUpper km state kc) 0 buffer =
        .ok ((keyTexts toUpper table km state kc).flatten.length,
          text ++ buffer.drop text.length) := by
  obtain ⟨text, hfit, hloop⟩ :=
    utf8Loop_eq (fun sym hsym hnil => h (mem_map.mpr ⟨sym, hsym, hnil⟩)) [] buffer
  rw [nil_append, length_nil, zero_add] at hloop
  exact ⟨text, hfit, hloop⟩

theorem length_append_drop (h : text.length ≤ buffer.length) :
    (text ++ buffer.drop text.length).length = buffer.length := by
  rw [length_append, length_drop]
  omega

/-- **A buffer that is too small** holds the texts that fit, with a NUL in its last byte. -/
theorem xkbStateKeyGetUtf8_of_le (h : [] ∉ keyTexts toUpper table km state kc)
    (buffer : List UInt8)
    (hle : buffer.length ≤ (keyTexts toUpper table km state kc).flatten.length) :
    ∃ text, FittingText (keyTexts toUpper table km state kc) buffer.length text ∧
      xkbStateKeyGetUtf8 toUpper table km state kc buffer =
        ((keyTexts toUpper table km state kc).flatten.length,
          (text ++ buffer.drop text.length).set (buffer.length - 1) 0) := by
  obtain ⟨text, hfit, hloop⟩ := utf8Loop_keyTexts h
  refine ⟨text, hfit, ?_⟩
  obtain ⟨-, -, hlen, -⟩ := hfit
  rw [xkbStateKeyGetUtf8, hloop]
  dsimp only
  rw [length_append_drop hlen, if_pos hle]

/-- **A buffer that is large enough** holds the text and a NUL; a single character may have
become a control character. -/
theorem xkbStateKeyGetUtf8_of_lt (h : [] ∉ keyTexts toUpper table km state kc)
    (buffer : List UInt8)
    (hlt : (keyTexts toUpper table km state kc).flatten.length < buffer.length) :
    (xkbStateKeyGetUtf8 toUpper table km state kc buffer).1 =
        (keyTexts toUpper table km state kc).flatten.length ∧
      ((keyTexts toUpper table km state kc).flatten.length = 1 ∨
        (keyTexts toUpper table km state kc).flatten <+:
          (xkbStateKeyGetUtf8 toUpper table km state kc buffer).2) := by
  obtain ⟨text, hfit, hloop⟩ := utf8Loop_keyTexts h
  have htext := hfit.eq_flatten (le_of_lt hlt)
  have hvalid := isValidUtf8_flatten (isUtf8Sequence_of_mem_keyTexts h)
  rw [← htext] at hlt hvalid hloop ⊢
  have hset : (text ++ buffer.drop text.length).set text.length 0 =
      text ++ 0 :: buffer.drop (text.length + 1) := by
    rw [set_append_right _ _ (le_refl _), Nat.sub_self, drop_eq_getElem_cons hlt, set_cons_zero]
  rw [xkbStateKeyGetUtf8, hloop]
  dsimp only
  rw [length_append_drop (le_of_lt hlt), if_neg (not_le.mpr hlt), hset, take_left,
    if_neg (by rw [hvalid]; decide)]
  split
  · rename_i hctrl
    exact ⟨rfl, .inl hctrl.1⟩
  · exact ⟨rfl, .inr (prefix_append _ _)⟩

/-- Where the buffer ends right after a text, it holds a prefix of the texts. -/
theorem exists_prefix_of_boundary (hseq : ∀ text ∈ texts, IsUtf8Sequence text)
    (hfit : FittingText texts buffer.length text) {k : ℕ}
    (hk : (texts.take k).flatten.length + 1 = buffer.length) :
    ∃ rest, (text ++ buffer.drop text.length).set (buffer.length - 1) 0 =
        (texts.take k).flatten ++ 0 :: rest ∧
      isValidUtf8 (texts.take k).flatten = true := by
  obtain ⟨more, hmore⟩ := hfit.prefix (j := k) (by omega)
  obtain ⟨-, -, hlen, -⟩ := hfit
  have hlength := length_append_drop hlen
  rw [← hk, Nat.add_sub_cancel]
  cases hrest : more ++ buffer.drop text.length with
  | nil =>
    rw [← hmore, append_assoc, hmore, hrest, append_nil] at hlength
    omega
  | cons c rest =>
    refine ⟨rest, ?_, isValidUtf8_flatten fun t ht => hseq t (mem_of_mem_take ht)⟩
    rw [← hmore, append_assoc, hmore, hrest, set_append_right _ _ (le_refl _),
      Nat.sub_self, set_cons_zero]

/-- Where the buffer is full of bytes that are no NUL, the NUL is the one that was written. -/
theorem length_eq_of_set_eq {bytes s rest : List UInt8} (hbytes : ∀ c ∈ bytes, c ≠ 0) {i : ℕ}
    (h : bytes.set i 0 = s ++ 0 :: rest) : s.length = i := by
  by_contra hne
  have hget : (bytes.set i 0)[s.length]? = some 0 := by
    rw [h, getElem?_append_right (le_refl _), Nat.sub_self]
    rfl
  rw [getElem?_set_ne fun h => hne h.symm] at hget
  exact hbytes 0 (mem_of_getElem? hget) rfl

variable (toUpper table km state kc)

/-- **Truncation of the text of a key.** The length that is returned never depends on the size
of the buffer. A buffer that is too small holds a valid prefix of the text, whatever its bytes
were, exactly if the byte before its end is between the texts of two keysyms. -/
theorem utf8_truncation (size : ℕ) :
    TruncatesText (xkbStateKeyGetUtf8 toUpper table km state kc) size ↔
      endsAtText (keyTexts toUpper table km state kc) size := by
  by_cases hnil : [] ∈ keyTexts toUpper table km state kc
  · -- nothing is written, and no buffer is too small
    have hzero := xkbStateKeyGetUtf8_of_nil_mem toUpper table km state kc hnil
    refine ⟨fun _ => .inl hnil, fun _ buffer buffer' _ => ⟨by rw [hzero, hzero], ?_⟩⟩
    intro hpos hle
    rw [hzero] at hle
    omega
  have hseq := isUtf8Sequence_of_mem_keyTexts hnil
  have hlength : ∀ buffer, (xkbStateKeyGetUtf8 toUpper table km state kc buffer).1 =
      (keyTexts toUpper table km state kc).flatten.length := by
    intro buffer
    rcases lt_or_ge (keyTexts toUpper table km state kc).flatten.length buffer.length with
      hlt | hge
    · exact (xkbStateKeyGetUtf8_of_lt hnil _ hlt).1
    · obtain ⟨text, -, heq⟩ := xkbStateKeyGetUtf8_of_le hnil _ hge
      rw [heq]
  constructor
  · intro htrunc
    refine .inr (Classical.or_iff_not_imp_left.mpr fun hsize =>
      Classical.or_iff_not_imp_left.mpr fun hsmall => ?_)
    have hpos : 0 < size := pos_of_ne_zero hsize
    have hle : size ≤ (keyTexts toUpper table km state kc).flatten.length := not_lt.mp hsmall
    -- a buffer of bytes that are in no text
    obtain ⟨-, hcut⟩ := htrunc (List.replicate size 0xff)
      (List.replicate ((keyTexts toUpper table km state kc).flatten.length + 1) 0)
      length_replicate
    rw [hlength, hlength, length_replicate] at hcut
    obtain ⟨s, rest, hs, hpre, hvalid⟩ := hcut hpos hle (Nat.lt_succ_self _)
    obtain ⟨text, hfit, heq⟩ := xkbStateKeyGetUtf8_of_le hnil (List.replicate size 0xff)
      (by rwa [length_replicate])
    rw [heq, length_replicate] at hs
    have hslen : s.length = size - 1 := by
      refine length_eq_of_set_eq (fun c hc => ?_) hs
      rcases mem_append.mp hc with hc | hc
      · obtain ⟨k, rfl, -, -⟩ := hfit
        obtain ⟨t, ht, hc⟩ := mem_flatten.mp hc
        obtain ⟨sym, -, rfl⟩ := mem_map.mp (mem_of_mem_take ht)
        exact ne_zero_of_mem_keysymToUtf8 hc
      · rw [eq_of_mem_replicate (mem_of_mem_drop hc)]
        decide
    rcases (xkbStateKeyGetUtf8_of_lt hnil (List.replicate
        ((keyTexts toUpper table km state kc).flatten.length + 1) 0)
        (by rw [length_replicate]; exact Nat.lt_succ_self _)).2 with hone | hfull
    · refine ⟨0, ?_⟩
      rw [take_zero, flatten_nil, length_nil]
      omega
    · have hpre' := prefix_of_prefix_length_le hpre hfull (by omega)
      obtain ⟨k, rfl⟩ := eq_flatten_of_isValidUtf8 hseq hpre' hvalid
      exact ⟨k, by omega⟩
  · intro hends buffer buffer' hbuffer
    refine ⟨by rw [hlength, hlength], fun hpos hle hlt => ?_⟩
    rw [hlength] at hle hlt
    rcases hends with hends | hends | hends | ⟨k, hk⟩
    · exact absurd hends hnil
    · omega
    · omega
    · obtain ⟨text, hfit, heq⟩ := xkbStateKeyGetUtf8_of_le hnil buffer
        (by rwa [hbuffer])
      obtain ⟨rest, hset, hvalid⟩ := exists_prefix_of_boundary hseq hfit (k := k) (by rwa [hbuffer])
      refine ⟨_, rest, by rw [heq]; exact hset, ?_, hvalid⟩
      rcases (xkbStateKeyGetUtf8_of_lt hnil _ hlt).2 with hone | hfull
      · have hzero : ((keyTexts toUpper table km state kc).take k).flatten = [] := by
          rw [← length_eq_zero_iff]
          omega
        rw [hzero]
        exact nil_prefix
      · exact (flatten_take_isPrefix _ k).trans hfull

end

/-- A keymap with one key, whose only level has the keysyms `a` and `eacute`. -/
def accentKeymap : XkbKeymap where
  numKeysLow := 1
  keys := [{ groups := [{ levels := [{ syms := [0x61, 0xe9] }] }] }]

/-- In a buffer of three bytes the text of `accentKeymap` is cut within its second character. -/
theorem utf8_cut_within_character :
    xkbStateKeyGetUtf8 id [] accentKeymap {} 0 [0xff, 0xff, 0xff] = (3, [0x61, 0xc3, 0]) ∧
      ¬TruncatesText (xkbStateKeyGetUtf8 id [] accentKeymap {} 0) 3 := by
  refine ⟨by decide, fun h => ?_⟩
  obtain ⟨-, hcut⟩ := h [0xff, 0xff, 0xff] [0, 0, 0, 0] rfl
  obtain ⟨text, rest, heq, -, hvalid⟩ := hcut (by decide) (by decide) (by decide)
  have hbytes : text ++ 0 :: rest = [0x61, 0xc3, 0] := heq.symm.trans (by decide)
  match text, hbytes with
  | [], hbytes => simp at hbytes
  | [c], hbytes => simp at hbytes
  | [c, d], hbytes =>
    obtain ⟨rfl, rfl, -⟩ : c = 0x61 ∧ d = 0xc3 ∧ rest = [] := by simpa using hbytes
    cases hvalid
  | c :: d :: e :: text, hbytes => simp at hbytes

end Xkbcommon
