import Mathlib.Data.List.TakeWhile
import Xkbcommon.Compose.Newline
import Xkbcommon.Compose.State

/-!
# Dumping a Compose table

`print_compose_table_entry` of `src/compose/dump.c`, with the escape sequences of
`src/compose/escape.h`, and what the parser makes of its output.

An entry is read back from its line, with three exceptions. Nothing is printed for an empty
string, so that an entry without a keysym has no right-hand side, and its line is skipped. The
name of a keysym is printed as it is, but on the right-hand side the lexer accepts only names
that start with a letter or an underscore, and a digit is an unrecognized token. And a table
near the limit of nodes may lose entries, since the limit is checked as if nothing were shared
with the sequences before.
-/

namespace Xkbcommon

open List Tst

variable {buf name s : List UInt8} {es : List ComposeTableEntry} {c : UInt8} {table : ComposeTable}

/-! ### Printing -/

/-- The loop of `escape_utf8_string_literal`, in which the next `copy` bytes belong to a code
point that is copied. -/
def escapeFrom : ℕ → Bool → List UInt8 → List UInt8
  | _, _, [] => []
  | copy + 1, _, c :: s => c :: escapeFrom copy false s
  | 0, previousIsHexEscape, c :: s =>
    if c < 0x80 then
      if c ≤ 0x10 ∨ c = 0x7f ∨ (isXdigit c ∧ previousIsHexEscape) then
        0x5c :: 0x78 :: (Hex.digits false 2 c.toNat ++ escapeFrom 0 true s)
      else if c = 0x22 ∨ c = 0x5c then 0x5c :: c :: escapeFrom 0 false s
      else c :: escapeFrom 0 false s
    else if c < 0xe0 then c :: escapeFrom 1 false s
    else if c < 0xf0 then c :: escapeFrom 2 false s
    else c :: escapeFrom 3 false s

/-- `escape_utf8_string_literal`. -/
def escapeUtf8StringLiteral (s : List UInt8) : List UInt8 := escapeFrom 0 false s

variable (tables : KeysymTables) {k : Keysym}

/-- A keysym in angle brackets. -/
def printLhsKeysym (ks : Keysym) : List UInt8 :=
  0x3c :: ((keysymGetName tables ks keysymNameMaxSize).1 ++ [0x3e])

/-- The left-hand side: keysyms separated by spaces. -/
def printLhs (tables : KeysymTables) : List Keysym → List UInt8
  | [] => []
  | [ks] => printLhsKeysym tables ks
  | ks :: rest => printLhsKeysym tables ks ++ 0x20 :: printLhs tables rest

/-- The string of the right-hand side. -/
def printUtf8 (utf8 : List UInt8) : List UInt8 :=
  if utf8 = [] then [] else ascii " \"" ++ escapeUtf8StringLiteral utf8 ++ ascii "\""

/-- The keysym of the right-hand side. -/
def printKeysym (ks : Keysym) : List UInt8 :=
  if ks = noSymbol then [] else 0x20 :: (keysymGetName tables ks keysymNameMaxSize).1

/-- `print_compose_table_entry`. -/
def printComposeTableEntry (entry : ComposeTableEntry) : List UInt8 :=
  printLhs tables entry.sequence ++ (ascii " : " ++ (printUtf8 entry.utf8 ++
    (printKeysym tables entry.keysym ++ [0x0a])))

/-- All entries, each on its own line. -/
def dumpEntries (entries : List ComposeTableEntry) : List UInt8 :=
  entries.flatMap (printComposeTableEntry tables)

/-- `xkb_compose_table_dump`. -/
def composeTableDump (table : ComposeTable) : Option (List UInt8) :=
  (composeTableEntries table).map (dumpEntries tables)

/-! ### String literals are read back -/

theorem scannerHex_digits {n : ℕ} (hn : n < 256) {rest : List UInt8} :
    scannerHex 2 0 0 (Hex.digits false 2 n ++ rest) = (2, n) := by
  have hdigit : ∀ d < 16, Hex.ofByte (Hex.toByte false d) = some d :=
    fun d hd => Hex.ofByte_toByte hd
  have hdigits : Hex.digits false 2 n =
      [Hex.toByte false (n / 16 % 16), Hex.toByte false (n % 16)] := rfl
  rw [hdigits, cons_append, cons_append, scannerHex, hdigit _ (Nat.mod_lt _ (by decide))]
  dsimp only
  rw [scannerHex, hdigit _ (Nat.mod_lt _ (by decide))]
  dsimp only
  rw [scannerHex]
  congr 1
  omega

/-- A byte of a code point is copied by the scanner. -/
theorem scanString_copy (hquote : c ≠ 0x22) (hnl : c ≠ 0x0a) (hescape : c ≠ 0x5c)
    (hbuf : buf.length + 1 < scannerBufSize) :
    scanString 0 buf (c :: s) = scanString 0 (buf ++ [c]) s := by
  rw [scanString, if_neg (by simp [hquote, hnl]), if_neg hescape, bufAppend_eq hbuf]

theorem scanString_hexEscape (hc : c ≠ 0) (hbuf : buf.length + 1 < scannerBufSize) :
    scanString 0 buf (0x5c :: 0x78 :: (Hex.digits false 2 c.toNat ++ s)) =
      scanString 0 (buf ++ [c]) s := by
  have hpos : c.toNat ≠ 0 := fun h => hc (UInt8.toNat_inj.mp h)
  have hescape : scanEscape (0x78 :: (Hex.digits false 2 c.toNat ++ s)) = (3, some c) := by
    rw [scanEscape, if_neg (by decide), if_neg (by decide), if_pos (.inl rfl),
      scannerHex_digits (UInt8.toNat_lt c)]
    simp [hpos]
  rw [scanString, if_neg (by decide), if_pos rfl, hescape]
  dsimp only
  rw [bufAppend_eq hbuf]
  rfl

theorem scanString_charEscape (hc : c = 0x22 ∨ c = 0x5c) (hbuf : buf.length + 1 < scannerBufSize) :
    scanString 0 buf (0x5c :: c :: s) = scanString 0 (buf ++ [c]) s := by
  rw [← bufAppend_eq hbuf]
  rcases hc with rfl | rfl <;> rfl

/-- **The scanner reads back what is escaped**: the bytes of a code point are copied, and none of
them ends the literal or starts an escape sequence. -/
theorem scanString_escapeFrom {tail : ℕ} {lo hi : UInt8} (hlo : 0x80 ≤ lo)
    (hvalid : validUtf8From tail lo hi s = true) (hnul : 0 ∉ s) (previous : Bool)
    (hbuf : buf.length + s.length < scannerBufSize) (rest : List UInt8) :
    scanString 0 buf (escapeFrom tail previous s ++ 0x22 :: rest) = (buf ++ s, 0x22 :: rest) := by
  induction s generalizing tail lo hi previous buf with
  | nil =>
    rw [append_nil]
    cases tail <;> rfl
  | cons c s ih =>
    rw [length_cons] at hbuf
    have hnul' : 0 ∉ s := fun h => hnul (mem_cons_of_mem c h)
    have hc : c ≠ 0 := fun h => hnul (h ▸ mem_cons_self)
    have hbuf' : (buf ++ [c]).length + s.length < scannerBufSize := by
      rw [length_append, length_singleton]
      omega
    have hassoc : buf ++ c :: s = (buf ++ [c]) ++ s := by simp
    have hbuf₁ : buf.length + 1 < scannerBufSize := by omega
    have hhigh : 0x80 ≤ c → ∀ s', scanString 0 buf (c :: s') = scanString 0 (buf ++ [c]) s' := by
      intro hge s'
      refine scanString_copy ?_ ?_ ?_ hbuf₁ <;> rintro rfl <;> exact absurd hge (by decide)
    rw [hassoc]
    cases tail with
    | succ tail =>
      rw [validUtf8From, Bool.and_eq_true, decide_eq_true_eq] at hvalid
      rw [escapeFrom, cons_append, hhigh (UInt8.le_trans hlo hvalid.1.1)]
      exact ih (by decide) hvalid.2 hnul' false hbuf'
    | zero =>
      rw [validUtf8From] at hvalid
      split at hvalid
      · cases hvalid
      · rename_i tail lo' hi' hlead
        have hlo' := (utf8Lead_range hlead).1
        have htail := utf8Lead_tail hlead
        rw [escapeFrom]
        split_ifs at htail ⊢ with hascii hhex hspecial hlen₁ hlen₂
        all_goals subst htail
        · rw [cons_append, cons_append, append_assoc, scanString_hexEscape hc hbuf₁]
          exact ih hlo' hvalid hnul' true hbuf'
        · rw [cons_append, cons_append, scanString_charEscape hspecial hbuf₁]
          exact ih hlo' hvalid hnul' false hbuf'
        · rw [cons_append, scanString_copy (fun h => hspecial (.inl h))
            (fun h => hhex (.inl (h ▸ by decide))) (fun h => hspecial (.inr h)) hbuf₁]
          exact ih hlo' hvalid hnul' false hbuf'
        all_goals
          rw [cons_append, hhigh (UInt8.not_lt.mp hascii)]
          exact ih hlo' hvalid hnul' false hbuf'

theorem lexStringLiteral_escape (hvalid : isValidUtf8 s = true) (hnul : 0 ∉ s)
    (hlen : s.length + 1 < scannerBufSize) (rest : List UInt8) :
    lexStringLiteral (escapeUtf8StringLiteral s ++ 0x22 :: rest) = (.string s, rest) := by
  rw [lexStringLiteral, escapeUtf8StringLiteral,
    scanString_escapeFrom (by decide) hvalid hnul false (by simpa using Nat.lt_of_succ_lt hlen)]
  show (stringToken ([] ++ s), rest) = _
  rw [nil_append, stringToken, bufFinish, if_pos hlen]
  dsimp only
  rw [if_pos hvalid]

/-- `parse_string_literal`. -/
def parseStringLiteral (string : List UInt8) : Option (List UInt8) :=
  match (lex (cString string)).1 with
  | .string text => some (cString text)
  | _ => none

theorem zero_notMem_escapeFrom (h : 0 ∉ s) (copy : ℕ) {previous : Bool} :
    0 ∉ escapeFrom copy previous s := by
  induction s generalizing copy previous with
  | nil => cases copy <;> exact not_mem_nil
  | cons c s ih =>
    obtain ⟨hc, hs⟩ := not_or.mp (mt mem_cons.mpr h)
    have hdigits : 0 ∉ Hex.digits false 2 c.toNat :=
      fun hmem => by cases Hex.isSome_ofByte_of_mem hmem
    cases copy with
    | zero =>
      rw [escapeFrom]
      split_ifs <;> simp [hc, ih hs, hdigits]
    | succ copy => simp [escapeFrom, hc, ih hs]

/-- **A string literal is read back.** -/
theorem parseStringLiteral_escape (hvalid : isValidUtf8 s = true) (hnul : 0 ∉ s)
    (hlen : s.length < 1023) :
    parseStringLiteral (ascii "\"" ++ escapeUtf8StringLiteral s ++ ascii "\"") = some s := by
  have hstring : 0 ∉ ascii "\"" ++ escapeUtf8StringLiteral s ++ ascii "\"" := by
    have hquote : 0 ∉ ascii "\"" := by decide
    simp [escapeUtf8StringLiteral, zero_notMem_escapeFrom hnul, hquote]
  have htok : lex (ascii "\"" ++ escapeUtf8StringLiteral s ++ ascii "\"") = (.string s, []) :=
    lexStringLiteral_escape hvalid hnul (Nat.succ_lt_succ hlen) []
  rw [parseStringLiteral, cString_eq_self hstring, htok]
  exact congrArg some (cString_eq_self hnul)

theorem parseStringLiteral_escape_quote :
    parseStringLiteral (ascii "\"" ++ escapeUtf8StringLiteral [0x22, 0x01, 0x61] ++ ascii "\"") =
      some [0x22, 0x01, 0x61] :=
  parseStringLiteral_escape (by decide) (by decide) (by decide)

/-! ### Names are read back -/

theorem isIdentChar_of_isXdigit (h : isXdigit c = true) : isIdentChar c = true := by
  unfold isXdigit Hex.ofByte at h
  unfold isIdentChar isAlnum isAlpha isDigit
  simp only [UInt8.le_iff_toNat_le, UInt8.reduceToNat, Bool.or_eq_true, Bool.and_eq_true,
    decide_eq_true_eq] at h ⊢
  split_ifs at h
  · exact .inl (.inr ‹_›)
  · exact .inl (.inl (.inr (by omega)))
  · exact .inl (.inl (.inl (by omega)))
  · cases h

/-- A character of an identifier does not end a keysym literal. -/
theorem isIdentChar_ne (h : isIdentChar c = true) : c ≠ 0x3e ∧ c ≠ 0x0a ∧ c ≠ 0 := by
  refine ⟨?_, ?_, ?_⟩ <;> rintro rfl <;> cases h

/-- What every name of a keysym is like. -/
structure NameLike (name : List UInt8) : Prop where
  ne_nil : name ≠ []
  ident : ∀ c ∈ name, isIdentChar c = true
  ne_include : name ≠ ascii "include"
  length : name.length + 1 < scannerBufSize

theorem nameLike_keysymName (tables : KeysymData) {ks : Keysym} (hks : ks ≤ keysymMax) :
    NameLike (keysymName tables.toKeysymTables ks) := by
  have hlength : (keysymName tables.toKeysymTables ks).length + 1 < scannerBufSize :=
    (Nat.succ_lt_succ (length_keysymName_lt tables.toKeysymTables)).trans (by decide)
  have hdigits : ∀ upper w n, ∀ c ∈ Hex.digits upper w n, isIdentChar c = true :=
    fun upper w n c hc => isIdentChar_of_isXdigit (Hex.isSome_ofByte_of_mem hc)
  refine ⟨?_, ?_, ?_, hlength⟩
  all_goals
    rw [keysymName, if_neg (not_lt.mpr hks)]
    split
  all_goals first
    | (rename_i i hindex
       obtain ⟨e, he, -⟩ := findKeysymIndex_sound hindex
       rw [getD_eq_getElem?_getD, he]
       obtain ⟨hne, hident, hinclude⟩ := tables.names e (mem_of_getElem? he)
       assumption)
    | split_ifs
  · exact cons_ne_nil _ _
  · exact cons_ne_nil _ _
  · exact forall_mem_cons.mpr ⟨rfl, hdigits _ _ _⟩
  · exact forall_mem_cons.mpr ⟨rfl, forall_mem_cons.mpr ⟨rfl, hdigits _ _ _⟩⟩
  · intro h
    cases h
  · intro h
    cases h

/-- A loop that copies the characters of a name reads it up to the byte at which it stops. -/
theorem scan_name (scan : List UInt8 → List UInt8 → List UInt8 × List UInt8) {stop : UInt8}
    (hstop : ∀ buf s, scan buf (stop :: s) = (buf, stop :: s))
    (hcopy : ∀ buf s c, isIdentChar c = true → scan buf (c :: s) = scan (bufAppend buf c) s)
    (hname : ∀ c ∈ name, isIdentChar c = true) (hlen : buf.length + name.length < scannerBufSize)
    {rest : List UInt8} : scan buf (name ++ stop :: rest) = (buf ++ name, stop :: rest) := by
  induction name generalizing buf with
  | nil => rw [append_nil, nil_append, hstop]
  | cons c name ih =>
    rw [length_cons] at hlen
    rw [cons_append, hcopy _ _ c (hname c mem_cons_self), bufAppend_eq (by omega),
      ih (fun d hd => hname d (mem_cons_of_mem c hd))
        (by rw [length_append, length_singleton]; omega)]
    simp

theorem NameLike.lexKeysymLiteral (h : NameLike name) (rest : List UInt8) :
    lexKeysymLiteral (name ++ 0x3e :: rest) = (.lhsKeysym name, rest) := by
  have hscan : scanKeysym [] (name ++ 0x3e :: rest) = ([] ++ name, 0x3e :: rest) :=
    scan_name scanKeysym (fun _ _ => rfl)
      (fun _ _ c hc => if_neg (not_or.mpr ⟨(isIdentChar_ne hc).1, (isIdentChar_ne hc).2.1⟩)) h.ident
      (by simpa using Nat.lt_of_succ_lt h.length)
  rw [Xkbcommon.lexKeysymLiteral, hscan]
  show ((bufFinish ([] ++ name)).elim ComposeToken.error ComposeToken.lhsKeysym, rest) = _
  rw [nil_append, bufFinish, if_pos h.length]
  rfl

theorem NameLike.cString_eq (h : NameLike name) : cString name = name :=
  cString_eq_self fun hmem => (isIdentChar_ne (h.ident 0 hmem)).2.2 rfl

theorem isSpace_eq_false (h : isIdentChar c = true) : isSpace c = false := by
  unfold isIdentChar isAlnum isAlpha isDigit at h
  unfold isSpace
  simp only [UInt8.le_iff_toNat_le, ← UInt8.toNat_inj, UInt8.reduceToNat, Bool.or_eq_true,
    Bool.and_eq_true, decide_eq_true_eq, beq_iff_eq, Bool.or_eq_false_iff, Bool.and_eq_false_imp,
    decide_eq_false_iff_not, beq_eq_false_iff_ne, ne_eq] at h ⊢
  omega

theorem skipToEol_name (hname : ∀ c ∈ name, isIdentChar c = true) {rest : List UInt8} :
    skipToEol (name ++ 0x0a :: rest) = 0x0a :: rest := by
  induction name with
  | nil => rfl
  | cons c name ih =>
    rw [cons_append, skipToEol, if_neg (isIdentChar_ne (hname c mem_cons_self)).2.1]
    exact ih fun d hd => hname d (mem_cons_of_mem c hd)

/-- The name can be an identifier: it does not start with a digit. -/
def startsIdent (name : List UInt8) : Bool :=
  match name with
  | [] => false
  | c :: _ => isAlpha c || c == 0x5f

/-- A name on the right-hand side is an identifier or an unrecognized token. -/
theorem NameLike.lex (h : NameLike name) (rest : List UInt8) :
    lex (0x20 :: (name ++ 0x0a :: rest)) =
      (if startsIdent name then .ident name else .error, 0x0a :: rest) := by
  obtain ⟨c, cs, rfl⟩ := exists_cons_of_ne_nil h.ne_nil
  have hc := h.ident c mem_cons_self
  have hne : ∀ d : UInt8, isIdentChar d = false → c ≠ d := fun d hd hcd => by
    rw [hcd, hd] at hc
    cases hc
  have hblanks : skipBlanks false (0x20 :: (c :: cs ++ 0x0a :: rest)) =
      (false, c :: (cs ++ 0x0a :: rest)) := by
    show skipBlanks false (c :: (cs ++ 0x0a :: rest)) = _
    rw [skipBlanks, if_neg (hne 0x0a rfl), if_neg (by decide),
      if_neg (by simp [isSpace_eq_false hc]), if_neg (hne 0x23 rfl)]
  have heol : skipToEol (c :: (cs ++ 0x0a :: rest)) = 0x0a :: rest := skipToEol_name h.ident
  have hscan : scanIdent [] (c :: (cs ++ 0x0a :: rest)) = (c :: cs, 0x0a :: rest) :=
    scan_name scanIdent (fun _ _ => rfl) (fun _ _ _ hc => if_pos hc) h.ident
      (by simpa using Nat.lt_of_succ_lt h.length)
  rw [Xkbcommon.lex, hblanks]
  show lexToken c (cs ++ 0x0a :: rest) = _
  rw [lexToken, if_neg (hne 0x3c rfl), if_neg (hne 0x3a rfl), if_neg (hne 0x21 rfl),
    if_neg (hne 0x7e rfl), if_neg (hne 0x22 rfl), hscan, heol]
  show (if isAlpha c = true ∨ c = 0x5f then (identToken (c :: cs), 0x0a :: rest) else _) = _
  rw [identToken, bufFinish, if_pos h.length]
  dsimp only
  rw [if_neg h.ne_include]
  by_cases hstart : isAlpha c = true ∨ c = 0x5f
  · rw [if_pos hstart, if_pos]
    simpa [startsIdent] using hstart
  · rw [if_neg hstart, if_neg]
    simpa [startsIdent] using hstart

/-! ### Lines are parsed -/

/-- The production that the line of an entry stands for. -/
def ComposeTableEntry.production (entry : ComposeTableEntry) : Production :=
  { lhs := entry.sequence
    keysym := if entry.keysym = noSymbol then none else some entry.keysym
    string := if entry.utf8 = [] then none else some entry.utf8 }

/-- What the entries of a parsed table are like. -/
structure ComposeTableEntry.Checked (entry : ComposeTableEntry) : Prop where
  ne_nil : entry.sequence ≠ []
  length : entry.sequence.length ≤ composeMaxLhsLen
  sequence : ∀ k ∈ entry.sequence, k ≠ noSymbol ∧ k ≤ keysymMax
  keysym : entry.keysym ≤ keysymMax
  valid : isValidUtf8 entry.utf8 = true
  no_nul : 0 ∉ entry.utf8
  size : entry.utf8.length < composeMaxStringSize

/-- **The entry has a right-hand side that can be read back**: a string or a keysym, and the name
of the keysym does not start with a digit. -/
def ComposeTableEntry.Printable (entry : ComposeTableEntry) : Prop :=
  (entry.utf8 ≠ [] ∨ entry.keysym ≠ noSymbol) ∧
  (entry.keysym ≠ noSymbol → startsIdent (keysymName tables entry.keysym) = true)

section Lines

variable {env : ComposeEnv} {inc : Include} {rest : List UInt8} {p : Parser}

/-- A keysym on the left-hand side is read back. -/
theorem run_printLhsKeysym (hk : k ≠ noSymbol ∧ k ≤ keysymMax)
    (hlabel : p.label = .initialEol ∨ p.label = .lhs)
    (hlen : p.production.lhs.length < composeMaxLhsLen) :
    parserRun env inc (printLhsKeysym env.tables.toKeysymTables k ++ rest) p =
      parserRun env inc rest { p with
        label := .lhs
        production := { p.production with lhs := p.production.lhs ++ [k] } } := by
  have hname := nameLike_keysymName env.tables hk.2
  have htok : lex (printLhsKeysym env.tables.toKeysymTables k ++ rest) =
      (.lhsKeysym (keysymName env.tables.toKeysymTables k), rest) := by
    rw [printLhsKeysym, keysymGetName_eq, cons_append, append_assoc]
    exact hname.lexKeysymLiteral rest
  have hlex : p.label.lex env (printLhsKeysym env.tables.toKeysymTables k ++ rest) =
      (.lhsKeysym (keysymName env.tables.toKeysymTables k), rest) := by
    rw [ParserLabel.lex_eq, htok]
    rcases hlabel with h | h <;> simp [h]
  have hstep : parserStep env inc p (.lhsKeysym (keysymName env.tables.toKeysymTables k)) =
      p.lhsKeysymTok env (.lhsKeysym (keysymName env.tables.toKeysymTables k)) := by
    unfold parserStep
    rcases hlabel with h | h <;> rw [h] <;> rfl
  rw [parserRun_eq, hlex, hstep, Parser.lhsKeysymTok]
  dsimp only
  rw [hname.cString_eq, keysymFromName_keysymName _ hk.2, if_neg hk.1, if_neg (by omega)]
  rfl

/-- **The left-hand side is read back.** -/
theorem run_printLhs {seq : List Keysym} (hne : seq ≠ [])
    (hseq : ∀ k ∈ seq, k ≠ noSymbol ∧ k ≤ keysymMax)
    (hlabel : p.label = .initialEol ∨ p.label = .lhs)
    (hlen : p.production.lhs.length + seq.length ≤ composeMaxLhsLen) :
    parserRun env inc (printLhs env.tables.toKeysymTables seq ++ rest) p =
      parserRun env inc rest { p with
        label := .lhs
        production := { p.production with lhs := p.production.lhs ++ seq } } := by
  induction seq generalizing p with
  | nil => exact absurd rfl hne
  | cons k seq ih =>
    rw [length_cons] at hlen
    have hk := hseq k mem_cons_self
    cases seq with
    | nil => exact run_printLhsKeysym hk hlabel (by omega)
    | cons k' seq =>
      have hspace : ∀ (s : List UInt8) (p : Parser), p.label = .lhs →
          parserRun env inc (0x20 :: s) p = parserRun env inc s p := by
        intro s p h
        rw [parserRun_eq, parserRun_eq, h]
        rfl
      rw [printLhs, append_assoc, run_printLhsKeysym hk hlabel (by omega), cons_append,
        hspace _ _ rfl, ih (cons_ne_nil _ _) (fun k hk => hseq k (mem_cons_of_mem _ hk))
          (.inr rfl) (by rw [length_append, length_singleton]; omega)]
      · simp
      · exact nofun

/-- The string of the right-hand side is read back. -/
theorem run_printUtf8 {utf8 : List UInt8} (hvalid : isValidUtf8 utf8 = true) (hnul : 0 ∉ utf8)
    (hsize : utf8.length < composeMaxStringSize) (hlabel : p.label = .rhs)
    (hnone : p.production.string = none) :
    parserRun env inc (printUtf8 utf8 ++ rest) p =
      parserRun env inc rest { p with production := { p.production with
        string := if utf8 = [] then none else some utf8 } } := by
  obtain ⟨label, ⟨lhs, keysym, string⟩, n, table⟩ := p
  dsimp only at hlabel hnone
  subst hlabel hnone
  by_cases hempty : utf8 = []
  · rw [printUtf8, if_pos hempty, if_pos hempty]
    rfl
  · have htok : lex (printUtf8 utf8 ++ rest) = (.string utf8, rest) := by
      rw [printUtf8, if_neg hempty, append_assoc, append_assoc]
      exact lexStringLiteral_escape hvalid hnul (by
        unfold composeMaxStringSize at hsize
        unfold scannerBufSize
        omega) rest
    rw [parserRun_eq]
    show ParserOutcome.run env inc (lex _).2 (Parser.rhsTok env _ (lex _).1) = _
    rw [htok, Parser.rhsTok, if_neg (by simp), if_neg (by omega), if_neg hempty]
    rfl

variable {entry : ComposeTableEntry} {n : ℕ}

/-- A line up to the keysym of the right-hand side. -/
theorem run_line (h : entry.Checked) :
    parserRun env inc (printComposeTableEntry env.tables.toKeysymTables entry ++ rest)
        { numErrors := n, table := table } =
      parserRun env inc (printKeysym env.tables.toKeysymTables entry.keysym ++ 0x0a :: rest)
        { label := .rhs
          production := { entry.production with keysym := none }
          numErrors := n
          table := table } := by
  have hcolon : ∀ s : List UInt8, parserRun env inc (ascii " : " ++ s)
        ⟨.lhs, { lhs := entry.sequence }, n, table⟩ =
      parserRun env inc s ⟨.rhs, { lhs := entry.sequence }, n, table⟩ := by
    intro s
    rw [parserRun_eq]
    show ParserOutcome.run env inc (0x20 :: s) (if entry.sequence = [] then _ else _) = _
    rw [if_neg h.ne_nil]
    show parserRun env inc (0x20 :: s) ⟨.rhs, _, n, table⟩ = _
    rw [parserRun_eq, parserRun_eq]
    rfl
  rw [printComposeTableEntry, append_assoc, append_assoc, append_assoc,
    append_assoc, run_printLhs h.ne_nil h.sequence (.inl rfl) (by simpa using h.length)]
  dsimp only
  rw [nil_append, hcolon, run_printUtf8 h.valid h.no_nul h.size rfl rfl]
  rfl

/-- **A printable entry is added to the table.** -/
theorem run_line_printable (h : entry.Checked)
    (hprintable : entry.Printable env.tables.toKeysymTables) {table' : ComposeTable}
    (hadd : addProduction table entry.production = some table') :
    parserRun env inc (printComposeTableEntry env.tables.toKeysymTables entry ++ rest)
        { numErrors := n, table := table } =
      parserRun env inc rest { numErrors := n, table := table' } := by
  rw [run_line h, printKeysym]
  split_ifs with hkeysym
  · -- the end of the line completes the production
    have hproduction : { entry.production with keysym := none } = entry.production := by
      rw [ComposeTableEntry.production, if_pos hkeysym]
    have hstring : ¬(entry.production.string = none ∧ entry.production.keysym = none) := by
      have := hprintable.1.resolve_right (not_not.mpr hkeysym)
      simp [ComposeTableEntry.production, this]
    rw [hproduction, nil_append, parserRun_eq]
    show ParserOutcome.run env inc rest (Parser.commit _ _) = _
    rw [Parser.commit, if_neg hstring]
    dsimp only
    rw [hadd]
    rfl
  · -- the keysym completes it, and the end of the line is empty
    have hname := nameLike_keysymName env.tables h.keysym
    have hproduction : { entry.production with keysym := some entry.keysym } =
        entry.production := by
      rw [ComposeTableEntry.production, if_neg hkeysym]
    have hsome : entry.production.keysym = some entry.keysym := by
      rw [ComposeTableEntry.production, if_neg hkeysym]
    rw [keysymGetName_eq, cons_append, parserRun_eq]
    show ParserOutcome.run env inc (lex _).2 (Parser.rhsTok env _ (lex _).1) = _
    rw [hname.lex, if_pos (hprintable.2 hkeysym), Parser.rhsTok]
    dsimp only
    rw [hname.cString_eq, keysymFromName_keysymName _ h.keysym, if_neg hkeysym, if_neg (by simp),
      hproduction, Parser.commit, if_neg (by simp [hsome])]
    dsimp only
    rw [hadd]
    show parserRun env inc (0x0a :: rest) _ = _
    rw [parserRun_eq]
    rfl

/-- A line without a right-hand side is skipped. -/
theorem run_line_empty (h : entry.Checked) (hutf8 : entry.utf8 = [])
    (hkeysym : entry.keysym = noSymbol) :
    parserRun env inc (printComposeTableEntry env.tables.toKeysymTables entry ++ rest)
        { numErrors := n, table := table } =
      parserRun env inc rest { numErrors := n, table := table } := by
  have hstring : entry.production.string = none := by
    rw [ComposeTableEntry.production, if_pos hutf8]
  rw [run_line h, printKeysym, if_pos hkeysym, nil_append, parserRun_eq]
  show ParserOutcome.run env inc rest (Parser.commit _ _) = _
  rw [Parser.commit, if_pos ⟨hstring, rfl⟩]
  rfl

/-- A keysym whose name starts with a digit is an error. -/
theorem run_line_digit (h : entry.Checked) (hkeysym : entry.keysym ≠ noSymbol)
    (hstart : startsIdent (keysymName env.tables.toKeysymTables entry.keysym) = false) :
    parserRun env inc (printComposeTableEntry env.tables.toKeysymTables entry ++ rest)
        { numErrors := n, table := table } =
      if n + 1 ≤ maxErrors then parserRun env inc rest { numErrors := n + 1, table := table }
      else .error .failed := by
  have hname := nameLike_keysymName env.tables h.keysym
  rw [run_line h, printKeysym, if_neg hkeysym, keysymGetName_eq, cons_append, parserRun_eq]
  show ParserOutcome.run env inc (lex _).2 (Parser.rhsTok env _ (lex _).1) = _
  rw [hname.lex, hstart]
  show ParserOutcome.run env inc (0x0a :: rest) (Parser.error _ .error) = _
  rw [Parser.error]
  dsimp only
  split_ifs
  · show parserRun env inc (0x0a :: rest) ⟨.skip, _, _, _⟩ = _
    rw [parserRun_eq]
    rfl
  · rfl

/-- **What a dump is parsed to**: the productions of the entries that are printable. -/
theorem run_dumpEntries (h : ∀ entry ∈ es, entry.Checked) {t : Tst Keysym ComposeResult}
    (hstores : Stores table t) {table' : ComposeTable}
    (hok : parserRun env inc (dumpEntries env.tables.toKeysymTables es)
      { numErrors := n, table := table } = .ok table') :
    ∃ es' : List ComposeTableEntry, es'.Sublist es ∧
      (∀ entry ∈ es', entry.Printable env.tables.toKeysymTables) ∧
      addProductions (es'.map ComposeTableEntry.production) table = some table' := by
  induction es generalizing n table t with
  | nil =>
    rw [dumpEntries, flatMap_nil, parserRun_eq] at hok
    cases hok
    exact ⟨[], .slnil, nofun, rfl⟩
  | cons entry es ih =>
    have hentry := h entry mem_cons_self
    have hes : ∀ entry ∈ es, entry.Checked := fun e he => h e (mem_cons_of_mem _ he)
    rw [dumpEntries, flatMap_cons] at hok
    by_cases hprintable : entry.Printable env.tables.toKeysymTables
    · obtain ⟨k, s, hks⟩ : ∃ k s, entry.production.lhs = k :: s :=
        exists_cons_of_ne_nil hentry.ne_nil
      obtain ⟨table₁, hadd, hstores₁⟩ := stores_addProduction hstores hks
      rw [run_line_printable hentry hprintable hadd] at hok
      obtain ⟨es', hsub, hall, hrun⟩ := ih hes hstores₁ hok
      refine ⟨entry :: es', hsub.cons_cons _, forall_mem_cons.mpr ⟨hprintable, hall⟩, ?_⟩
      rw [map_cons, addProductions, foldlM_cons, hadd]
      exact hrun
    · by_cases hkeysym : entry.keysym = noSymbol
      · have hutf8 : entry.utf8 = [] := by
          by_contra hne
          exact hprintable ⟨.inl hne, fun h => absurd hkeysym h⟩
        rw [run_line_empty hentry hutf8 hkeysym] at hok
        obtain ⟨es', hsub, hrest⟩ := ih hes hstores hok
        exact ⟨es', hsub.cons _, hrest⟩
      · have hstart : startsIdent (keysymName env.tables.toKeysymTables entry.keysym) = false := by
          by_contra hne
          exact hprintable ⟨.inr hkeysym, fun _ => Bool.not_eq_false _ ▸ hne⟩
        rw [run_line_digit hentry hkeysym hstart] at hok
        split_ifs at hok
        obtain ⟨es', hsub, hrest⟩ := ih hes hstores hok
        exact ⟨es', hsub.cons _, hrest⟩

/-- A dump of printable entries is accepted, and every entry is added. -/
theorem run_dumpEntries_printable (h : ∀ entry ∈ es, entry.Checked)
    (hprintable : ∀ entry ∈ es, entry.Printable env.tables.toKeysymTables)
    {t : Tst Keysym ComposeResult} (hstores : Stores table t) :
    ∃ table', parserRun env inc (dumpEntries env.tables.toKeysymTables es)
        { numErrors := n, table := table } = .ok table' ∧
      addProductions (es.map ComposeTableEntry.production) table = some table' := by
  induction es generalizing table t with
  | nil => exact ⟨table, by rw [dumpEntries, flatMap_nil, parserRun_eq]; rfl, rfl⟩
  | cons entry es ih =>
    have hentry := h entry mem_cons_self
    obtain ⟨k, s, hks⟩ : ∃ k s, entry.production.lhs = k :: s := exists_cons_of_ne_nil hentry.ne_nil
    obtain ⟨table₁, hadd, hstores₁⟩ := stores_addProduction hstores hks
    obtain ⟨table', hrun, hall⟩ := ih (fun e he => h e (mem_cons_of_mem _ he))
      (fun e he => hprintable e (mem_cons_of_mem _ he)) hstores₁
    refine ⟨table', ?_, ?_⟩
    · rw [dumpEntries, flatMap_cons,
        run_line_printable hentry (hprintable entry mem_cons_self) hadd]
      exact hrun
    · rw [map_cons, addProductions, foldlM_cons, hadd]
      exact hall

end Lines

/-! ### Productions that do not override each other -/

/-- Neither sequence is a prefix of the other. -/
def Apart (q q' : List Keysym) : Prop := ¬q <+: q' ∧ ¬q' <+: q

section Apart

variable {table' : ComposeTable} {t : Tst Keysym ComposeResult} {productions : List Production}

/-- **The entries of a table come from productions**, and productions that do not override each
other are all added, or one is lost. -/
theorem lookup_addProductions (h : Stores table t)
    (hlhs : ∀ production ∈ productions, production.lhs ≠ [])
    (hadd : addProductions productions table = some table') :
    ∃ t', Stores table' t' ∧
      (∀ q r, t'.lookup q = some r → t.lookup q = some r ∨
        ∃ production ∈ productions, production.lhs = q ∧ production.result = r) ∧
      ((productions.Pairwise fun p p' => Apart p.lhs p'.lhs) →
        (∀ q r, t.lookup q = some r → ∀ p ∈ productions, Apart q p.lhs) →
        if staysBelow productions table then
          (∀ q r, t.lookup q = some r → t'.lookup q = some r) ∧
          ∀ production ∈ productions, t'.lookup production.lhs = some production.result
        else ∃ production ∈ productions, t'.lookup production.lhs = none) := by
  induction productions generalizing table t with
  | nil =>
    cases hadd
    exact ⟨t, h, fun q r hr => .inl hr, fun _ _ => ⟨fun q r hr => hr, nofun⟩⟩
  | cons production productions ih =>
    obtain ⟨k, s, hks⟩ := exists_cons_of_ne_nil (hlhs production mem_cons_self)
    obtain ⟨table₁, hadd₁, h₁⟩ := stores_addProduction h hks
    rw [addProductions, foldlM_cons, hadd₁] at hadd
    obtain ⟨t', h', hfrom, hall⟩ := ih h₁ (fun p hp => hlhs p (mem_cons_of_mem _ hp)) hadd
    rw [staysBelow, hadd₁, Option.getD_some]
    by_cases hfull : maxComposeNodes ≤ table.nodes.length + production.lhs.length
    · -- the production is discarded, and nothing else has its sequence
      rw [if_pos hfull] at hfrom
      refine ⟨t', h', fun q r hr => ?_, fun hapart hfree => ?_⟩
      · rcases hfrom q r hr with hr | ⟨p, hp, hpq⟩
        · exact .inl hr
        · exact .inr ⟨p, mem_cons_of_mem _ hp, hpq⟩
      · rw [if_neg (by simp [hfull])]
        refine ⟨production, mem_cons_self, ?_⟩
        by_contra hne
        obtain ⟨r, hr⟩ := Option.ne_none_iff_exists'.mp hne
        rcases hfrom _ r hr with hr | ⟨p, hp, hpq, -⟩
        · exact (hfree _ r hr production mem_cons_self).1 prefix_rfl
        · exact ((pairwise_cons.mp hapart).1 p hp).1 (hpq ▸ prefix_rfl)
    · rw [if_neg hfull] at hfrom hall
      have hlookup := fun q => lookup_insert production.result k s t q
      simp only [← hks] at hlookup
      have hself : (t.insert production.result k s).lookup production.lhs =
          some production.result := (hlookup _).trans (if_pos rfl)
      have hfrom₁ : ∀ q r, (t.insert production.result k s).lookup q = some r →
          t.lookup q = some r ∨ production.lhs = q ∧ production.result = r := by
        intro q r hr
        rw [hlookup] at hr
        split_ifs at hr with hq
        · cases hr
          exact .inr ⟨hq.symm, rfl⟩
        · exact .inl hr
      refine ⟨t', h', fun q r hr => ?_, fun hapart hfree => ?_⟩
      · rcases hfrom q r hr with hr | ⟨p, hp, hpq⟩
        · rcases hfrom₁ q r hr with hr | hq
          · exact .inl hr
          · exact .inr ⟨production, mem_cons_self, hq⟩
        · exact .inr ⟨p, mem_cons_of_mem _ hp, hpq⟩
      · obtain ⟨hhead, htail⟩ := pairwise_cons.mp hapart
        have hkeep : ∀ q r, t.lookup q = some r →
            (t.insert production.result k s).lookup q = some r := by
          intro q r hr
          have hq := hfree q r hr production mem_cons_self
          rw [hlookup, if_neg, if_neg]
          · exact hr
          · exact fun hor => hor.elim hq.1 hq.2
          · rintro rfl
            exact hq.1 prefix_rfl
        have hall := hall htail (by
          intro q r hr p hp
          rcases hfrom₁ q r hr with hr | ⟨rfl, -⟩
          · exact hfree q r hr p (mem_cons_of_mem _ hp)
          · exact hhead p hp)
        rw [decide_eq_true (not_le.mp hfull), Bool.true_and]
        split_ifs at hall ⊢
        · refine ⟨fun q r hr => hall.1 q r (hkeep q r hr), fun p hp => ?_⟩
          rcases mem_cons.mp hp with rfl | hp
          · exact hall.1 _ _ hself
          · exact hall.2 p hp
        · obtain ⟨p, hp, hnone⟩ := hall
          exact ⟨p, mem_cons_of_mem _ hp, hnone⟩

/-- What the productions of a new table make of it. -/
theorem lookup_addProductions_empty (hlhs : ∀ production ∈ productions, production.lhs ≠ [])
    (hadd : addProductions productions {} = some table) :
    ∃ t, Stores table t ∧
      (∀ q r, t.lookup q = some r →
        ∃ production ∈ productions, production.lhs = q ∧ production.result = r) ∧
      ((productions.Pairwise fun p p' => Apart p.lhs p'.lhs) →
        if staysBelow productions {} then
          ∀ production ∈ productions, t.lookup production.lhs = some production.result
        else ∃ production ∈ productions, t.lookup production.lhs = none) := by
  obtain ⟨t, h, hfrom, hall⟩ := lookup_addProductions stores_empty hlhs hadd
  simp only [Tst.lookup_nil, reduceCtorEq, false_or, IsEmpty.forall_iff, implies_true, true_and,
    true_imp_iff] at hfrom hall
  exact ⟨t, h, hfrom, hall⟩

end Apart

/-! ### The round trip -/

theorem checked_entryOf {production : Production} (hlhs : production.lhs ≠ [])
    (h : production.Checked) : (entryOf (production.lhs, production.result)).Checked := by
  have hkeysym : production.keysym.getD noSymbol ≤ keysymMax := by
    cases hkeysym : production.keysym with
    | none => exact Nat.zero_le _
    | some k => exact (h.keysym k hkeysym).2
  have hstring : isValidUtf8 ((production.string.map cString).getD []) = true ∧
      0 ∉ (production.string.map cString).getD [] ∧
      ((production.string.map cString).getD []).length < composeMaxStringSize := by
    cases hstring : production.string with
    | none => decide
    | some s =>
      obtain ⟨hvalid, hsize⟩ := h.string s hstring
      exact ⟨validUtf8From_takeWhile (by decide) hvalid, zero_notMem_cString,
        (List.IsPrefix.length_le <| takeWhile_prefix _).trans_lt hsize⟩
  exact ⟨hlhs, h.length, h.lhs, hkeysym, hstring.1, hstring.2.1, hstring.2.2⟩

/-- The entry of the production of a line. -/
theorem entryOf_production {entry : ComposeTableEntry} (h : entry.Checked) :
    entryOf (entry.sequence, entry.production.result) = entry := by
  obtain ⟨sequence, keysym, utf8⟩ := entry
  have hkeysym : (if keysym = noSymbol then none else some keysym).getD noSymbol = keysym := by
    split_ifs with h
    · exact h.symm
    · rfl
  have hutf8 : ((if utf8 = [] then none else some utf8).map cString).getD [] = utf8 := by
    split_ifs with hempty
    · exact hempty.symm
    · exact cString_eq_self h.no_nul
  show ComposeTableEntry.mk _ _ _ = _
  rw [ComposeTableEntry.mk.injEq]
  exact ⟨rfl, hkeysym, hutf8⟩

/-- **The entries of a parsed table**: they can be written as lines, and no sequence is a prefix
of another. -/
theorem Built.entries (h : Built table) :
    ∃ t es, Stores table t ∧ composeTableEntries table = some es ∧
      (∀ entry, entry ∈ es ↔ entry.In t) ∧ (∀ entry ∈ es, entry.Checked) ∧
      (es.map ComposeTableEntry.production).Pairwise fun p p' => Apart p.lhs p'.lhs := by
  obtain ⟨productions, hall, hadd⟩ := h
  obtain ⟨t, hstores, hfrom, -⟩ := lookup_addProductions_empty
    (fun production hp => (hall production hp).1) hadd
  refine ⟨t, _, hstores, composeTableEntries_eq hstores, hstores.mem_entries, ?_, ?_⟩
  · intro entry hentry
    obtain ⟨r, hr, heq⟩ := (hstores.mem_entries entry).mp hentry
    obtain ⟨p, hp, hlhs, rfl⟩ := hfrom _ r hr
    rw [← heq, ← hlhs]
    exact checked_entryOf (hall p hp).1 (hall p hp).2
  · rw [map_map, pairwise_map]
    refine (pairwise_entries hstores.ordered).imp_of_mem fun {e e'} he he' hlt => ?_
    have hne : e.1 ≠ e'.1 := fun heq => List.lt_irrefl e'.1 (heq ▸ hlt)
    have hr := (mem_entries hstores.ordered e.1 e.2).mp he
    have hr' := (mem_entries hstores.ordered e'.1 e'.2).mp he'
    constructor
    · intro hcmp
      rw [Tst.lookup_eq_none_of_prefix hr' hne (.inl hcmp)] at hr
      cases hr
    · intro hcmp
      rw [Tst.lookup_eq_none_of_prefix hr hne.symm (.inl hcmp)] at hr'
      cases hr'

theorem printLhs_cons (s : List Keysym) :
    ∃ rest, printLhs tables (k :: s) = printLhsKeysym tables k ++ rest := by
  cases s with
  | nil => exact ⟨[], (append_nil _).symm⟩
  | cons k' s => exact ⟨_, rfl⟩

theorem checkSupportedCharEncoding_dump (tables : KeysymData) (h : ∀ entry ∈ es, entry.Checked) :
    checkSupportedCharEncoding (dumpEntries tables.toKeysymTables es) =
      some (dumpEntries tables.toKeysymTables es) := by
  cases es with
  | nil => rfl
  | cons entry es =>
    have hentry := h entry mem_cons_self
    obtain ⟨k, s, hks⟩ := exists_cons_of_ne_nil hentry.ne_nil
    have hname := nameLike_keysymName tables (hentry.sequence k (hks ▸ mem_cons_self)).2
    obtain ⟨c, cs, hc⟩ := exists_cons_of_ne_nil hname.ne_nil
    have hc0 : c ≠ 0 := (isIdentChar_ne (hname.ident c (hc ▸ mem_cons_self))).2.2
    obtain ⟨rest, hrest⟩ : ∃ rest, dumpEntries tables.toKeysymTables (entry :: es) =
        0x3c :: c :: rest := by
      obtain ⟨lhs, hlhs⟩ := printLhs_cons tables.toKeysymTables s
      rw [dumpEntries, flatMap_cons, printComposeTableEntry, hks, hlhs, printLhsKeysym,
        keysymGetName_eq, hc]
      exact ⟨_, rfl⟩
    rw [hrest]
    simp [checkSupportedCharEncoding, hc0]

/-- **Dumping a table and parsing the text** gives the same entries exactly if every entry is
printable and adding the entries in the order of the dump stays below the limit of nodes. -/
theorem compose_dump_roundtrip (env : ComposeEnv) (bytes : List UInt8) (table : ComposeTable)
    (hok : parseString env bytes = .ok table) :
    (∃ text table', composeTableDump env.tables.toKeysymTables table = some text ∧
        parseString env text = .ok table' ∧ SameEntries table table') ↔
      ∃ es, composeTableEntries table = some es ∧
        (∀ entry ∈ es, entry.Printable env.tables.toKeysymTables) ∧
        staysBelow (es.map ComposeTableEntry.production) {} = true := by
  obtain ⟨t, es, hstores, hentries, hmem, hchecked, hapart⟩ := (built_of_parseString hok).entries
  have hparse : parseString env (dumpEntries env.tables.toKeysymTables es) =
      parserRun env (doInclude env composeMaxIncludeDepth)
        (dumpEntries env.tables.toKeysymTables es) {} :=
    parseString_of_some (checkSupportedCharEncoding_dump env.tables hchecked)
  have hlhs : ∀ {es' : List ComposeTableEntry}, es'.Sublist es →
      ∀ p ∈ es'.map ComposeTableEntry.production, p.lhs ≠ [] := by
    intro es' hsub p hp
    obtain ⟨e, he, rfl⟩ := mem_map.mp hp
    exact (hchecked e (hsub.subset he)).ne_nil
  constructor
  · rintro ⟨text, table', htext, hrun, hsame⟩
    rw [composeTableDump, hentries] at htext
    cases htext
    rw [hparse] at hrun
    have hprintable : ∀ entry ∈ es, entry.Printable env.tables.toKeysymTables := by
      intro entry hentry
      have hin := (hmem entry).mp hentry
      obtain ⟨es', hsub, hall, hadd⟩ := run_dumpEntries hchecked stores_empty hrun
      obtain ⟨t', hstores', hfrom, -⟩ := lookup_addProductions_empty (hlhs hsub) hadd
      obtain ⟨r, hr, -⟩ := ((hstores.sameEntries_iff hstores').mp hsame entry).mp hin
      obtain ⟨p, hp, hq, -⟩ := hfrom _ r hr
      obtain ⟨e, he, rfl⟩ := mem_map.mp hp
      -- an entry is determined by its sequence
      obtain rfl : e = entry := by
        obtain ⟨r₁, hr₁, h₁⟩ := (hmem e).mp (hsub.subset he)
        obtain ⟨r₂, hr₂, h₂⟩ := hin
        change e.sequence = entry.sequence at hq
        rw [hq, hr₂] at hr₁
        cases hr₁
        rw [← h₁, ← h₂, hq]
      exact hall e he
    refine ⟨es, hentries, hprintable, ?_⟩
    obtain ⟨table₁, hrun₁, hadd⟩ := run_dumpEntries_printable hchecked hprintable stores_empty
    obtain rfl : table' = table₁ := Except.ok.inj (hrun.symm.trans hrun₁)
    obtain ⟨t', hstores', -, hall⟩ := lookup_addProductions_empty (hlhs (.refl es)) hadd
    replace hall := hall hapart
    by_contra hbelow
    rw [if_neg hbelow] at hall
    obtain ⟨p, hp, hnone⟩ := hall
    obtain ⟨e, he, rfl⟩ := mem_map.mp hp
    obtain ⟨r, hr, -⟩ := ((hstores.sameEntries_iff hstores').mp hsame e).mp ((hmem e).mp he)
    cases hnone.symm.trans hr
  · rintro ⟨es', hes', hprintable, hbelow⟩
    obtain rfl : es = es' := Option.some.inj (hentries.symm.trans hes')
    obtain ⟨table', hrun, hadd⟩ := run_dumpEntries_printable hchecked hprintable stores_empty
    obtain ⟨t', hstores', hfrom, hall⟩ := lookup_addProductions_empty (hlhs (.refl es)) hadd
    replace hall := hall hapart
    rw [if_pos hbelow] at hall
    refine ⟨_, table', by rw [composeTableDump, hentries]; rfl, hparse.trans hrun,
      (hstores.sameEntries_iff hstores').mpr fun e => ?_⟩
    rw [← hmem]
    constructor
    · intro he
      exact ⟨_, hall _ (mem_map_of_mem he), entryOf_production (hchecked e he)⟩
    · rintro ⟨r, hr, heq⟩
      obtain ⟨p, hp, hq, rfl⟩ := hfrom _ r hr
      obtain ⟨e', he', rfl⟩ := mem_map.mp hp
      rw [← heq, ← hq]
      exact (entryOf_production (hchecked e' he')).symm ▸ he'

theorem compose_dump_roundtrip_string :
    ∃ table, parseString plainEnv (ascii "<a> <space> : \"\\x01f\" a\n") = .ok table ∧
      ∃ text table', composeTableDump smallKeysyms.toKeysymTables table = some text ∧
        parseString plainEnv text = .ok table' ∧ SameEntries table table' := by
  refine ⟨{ utf8 := [0, 1, 0x66, 0], nodes := [dummyNode, ⟨0x61, 0, 0, false, 0, 2⟩,
    ⟨0x20, 0, 0, true, 1, 0x61⟩] }, by decide, (compose_dump_roundtrip plainEnv
      (ascii "<a> <space> : \"\\x01f\" a\n") _ (by decide)).mpr
    ⟨[⟨[0x61, 0x20], 0x61, [1, 0x66]⟩], by decide, fun entry hentry => ?_, by decide⟩⟩
  rw [mem_singleton.mp hentry]
  exact ⟨.inr (by decide), fun _ => by decide⟩

/-- **Every text is refused or gives a well-formed table**: parsing ends, the keysyms and strings
of the entries are within their bounds, and no sequence is a prefix of another. -/
theorem parseString_ends (env : ComposeEnv) (bytes : List UInt8) :
    parseString env bytes = .error .failed ∨ ∃ table es, parseString env bytes = .ok table ∧
      composeTableEntries table = some es ∧ (∀ entry ∈ es, entry.Checked) ∧
      (es.map ComposeTableEntry.production).Pairwise fun p p' => Apart p.lhs p'.lhs := by
  have hresult : SoundResult (parseString env bytes) := soundResult_parse bytes ⟨[], nofun, rfl⟩
  cases h : parseString env bytes with
  | error e =>
    rw [h] at hresult
    exact .inl (congrArg _ hresult)
  | ok table =>
    obtain ⟨-, es, -, hes, -, hchecked, hapart⟩ := (built_of_parseString h).entries
    exact .inr ⟨table, es, rfl, hes, hchecked, hapart⟩

/-- **Typing the sequence of an entry gives the entry**: whatever was fed before the reset, the
last feed completes the sequence, with the keysym and the string of the entry. -/
theorem composeRun_entry {env : ComposeEnv} {bytes : List UInt8} {table : ComposeTable}
    (hok : parseString env bytes = .ok table) {es : List ComposeTableEntry}
    (hes : composeTableEntries table = some es) {entry : ComposeTableEntry} (hentry : entry ∈ es)
    (hmod : ∀ k ∈ entry.sequence, keysymIsModifier k = false) (keysymToUtf8 : Keysym → List UInt8)
    (size : ℕ) (calls : List ComposeCall) :
    ∃ views view, composeRun keysymToUtf8 size table
        (calls ++ .reset :: entry.sequence.map .feed) {} = some views ∧
      views.getLast? = some view ∧ view.status = .composed ∧ view.oneSym = entry.keysym ∧
      (entry.utf8 ≠ [] → view.utf8 = printString size entry.utf8) := by
  obtain ⟨t, es', hstores, hes', hmem, hchecked, -⟩ := (built_of_parseString hok).entries
  obtain rfl : es = es' := Option.some.inj (hes.symm.trans hes')
  obtain ⟨r, hr, heq⟩ := (hmem entry).mp hentry
  have hstart : Matches table t {} .nothing := .nothing (by rw [hstores.node_zero]; rfl)
  refine ⟨_, _, hstart.run hstores keysymToUtf8 size _, getLast?_refRun_reset calls
    (getLast?_refRun_entry (hchecked entry hentry).ne_nil hr hmod fun q hq hne =>
      Tst.lookup_eq_none_of_prefix hr hne (.inl hq)), rfl, ?_⟩
  rw [← heq]
  obtain ⟨keysym, string⟩ := r
  refine ⟨rfl, fun hne => ?_⟩
  cases string with
  | none => exact absurd rfl hne
  | some string => rfl

theorem composeRun_entry_string :
    ∃ table views view, parseString plainEnv (ascii "<a> : \"b\"\n") = .ok table ∧
      composeRun (fun _ => []) 8 table [.feed 0x20, .reset, .feed 0x61] {} = some views ∧
      views.getLast? = some view ∧ view.status = .composed ∧ view.utf8 = printString 8 [0x62] := by
  have hok : parseString plainEnv (ascii "<a> : \"b\"\n") = .ok
      { utf8 := [0, 0x62, 0], nodes := [dummyNode, ⟨0x61, 0, 0, true, 1, 0⟩] } := by decide
  obtain ⟨views, view, hrun, hlast, hstatus, -, hutf8⟩ := composeRun_entry hok
    (show _ = some [⟨[0x61], noSymbol, [0x62]⟩] by decide) mem_cons_self (by decide) (fun _ => []) 8
    [.feed 0x20]
  exact ⟨_, views, view, hok, hrun, hlast, hstatus, hutf8 (by simp)⟩

/-- The entry of an empty string is lost. -/
theorem compose_dump_loses_empty :
    ∃ table table', parseString plainEnv (ascii "<a> : \"\"\n") = .ok table ∧
      composeTableEntries table = some [⟨[0x61], noSymbol, []⟩] ∧
      composeTableDump smallKeysyms.toKeysymTables table = some (ascii "<a> : \n") ∧
      parseString plainEnv (ascii "<a> : \n") = .ok table' ∧
      composeTableEntries table' = some [] :=
  ⟨{ utf8 := [0, 0], nodes := [dummyNode, ⟨0x61, 0, 0, true, 1, 0⟩] }, {}, by decide, by decide,
    by decide, by decide, by decide⟩

end Xkbcommon
