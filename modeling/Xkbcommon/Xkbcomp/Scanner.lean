import Mathlib.Data.List.TakeWhile
import Xkbcommon.Compose.Lexer
import Xkbcommon.Compose.Table
import Xkbcommon.Numbers
import Xkbcommon.Rmlvo.Lexer

/-!
# The lexer of keymap files, and the string literals that are written for it

`_xkbcommon_lex` of `src/xkbcomp/scanner.c`, with the functions of `src/scanner-utils.h` that it
uses, and `check_write_string_literal` of `src/xkbcomp/keymap-dump.c`. As in the lexer of Compose
files, a scanner is what is left of the input, and a byte that does not fit into the buffer is
dropped. Messages are left out, and so is the failure to allocate memory.

What the writer escapes, the lexer reads back: every string that fits into the buffer is the value
of its literal (`Xkbcommon.Xkbcomp.xkbcommonLex_writeStringLiteral`).
-/

namespace Xkbcommon.Xkbcomp

open List

variable {buf s : List UInt8} {c : UInt8}

/-! ### The lexer -/

/-- The tokens, with their values. A keyword has the number that the parser knows it by. -/
inductive KeymapToken
  | endOfFile | error
  | string (bytes : List UInt8)
  | keyName (name : List UInt8)
  | semi | obrace | cbrace | equals | obracket | cbracket | oparen | cparen | dot | comma | plus
  | minus | times | divide | exclam | invert
  | keyword (tok : ℕ)
  | ident (name : List UInt8)
  | integer (num : ℕ) | decimalDigit (num : ℕ) | float (num : ℕ)
  deriving DecidableEq, Repr

/-- Spaces, the marks for the direction of the text and comments. -/
def skipWhitespaceAndComments : Bool → List UInt8 → List UInt8
  | _, [] => []
  | false, 0xe2 :: 0x80 :: 0x8e :: s => skipWhitespaceAndComments false s
  | false, 0xe2 :: 0x80 :: 0x8f :: s => skipWhitespaceAndComments false s
  | false, 0x2f :: 0x2f :: s => skipWhitespaceAndComments true s
  | comment, c :: s =>
    if comment then skipWhitespaceAndComments (c != 0x0a) s
    else if isSpace c then skipWhitespaceAndComments false s
    else if c = 0x23 then skipWhitespaceAndComments true s
    else c :: s

/-- `scanner_buf_appends_code_point`, whose failure is ignored. -/
def bufAppendsCodePoint (buf : List UInt8) (cp : ℕ) : List UInt8 :=
  if buf.length + 5 ≤ scannerBufSize then
    buf ++ if utf32ToUtf8 cp = [] then utf32ToUtf8 0xfffd else utf32ToUtf8 cp
  else buf

/-- `scanner_unicode_code_point`: the number of bytes that are read, and the code point. -/
def scannerUnicodeCodePoint : List UInt8 → ℕ × Option ℕ
  | 0x7b :: s =>
    let (count, cp) := (parseHexToUint32T s s.length).getD (-1, 0)
    let tail := s.drop count.toNat
    let skipped := tail.takeWhile fun c => c != 0x0a && c != 0x22 && c != 0x7d
    match tail.drop skipped.length with
    | 0x7d :: _ => (count.toNat + skipped.length + 2,
        if 0 < count ∧ skipped = [] ∧ cp ≤ 0x10ffff then some cp else none)
    | _ => (count.toNat + 1, none)
  | _ => (0, none)

/-- The escape sequences of one character. -/
def charEscapes : List (UInt8 × UInt8) :=
  [(0x5c, 0x5c), (0x22, 0x22), (0x6e, 0x0a), (0x74, 0x09), (0x72, 0x0d), (0x62, 0x08), (0x66, 0x0c),
    (0x76, 0x0b), (0x65, 0x1b)]

/-- An escape sequence, after its backslash: the number of bytes that are read, and the buffer. One
that is invalid or unknown is ignored. -/
def readEscape (buf : List UInt8) : List UInt8 → ℕ × List UInt8
  | [] => (0, buf)
  | c :: s =>
    match charEscapes.lookup c with
    | some d => (1, bufAppend buf d)
    | none =>
      if c = 0x75 then
        match scannerUnicodeCodePoint s with
        | (count, some cp) => (count + 1, if cp ≠ 0 then bufAppendsCodePoint buf cp else buf)
        | (count, none) => (count + 1, buf)
      else
        match scannerOct 4 0 0 (c :: s) with
        | (count, some o) =>
          (count, if 0 < count ∧ o ≠ 0 then bufAppend buf (UInt8.ofNat o) else buf)
        | (count, none) => (count, buf)

/-- The loop of a string literal, in which the first `skip` bytes belong to an escape sequence
that is read already. -/
def readString : ℕ → List UInt8 → List UInt8 → List UInt8 × List UInt8
  | _, buf, [] => (buf, [])
  | skip + 1, buf, _ :: s => readString skip buf s
  | 0, buf, c :: s =>
    if c = 0x22 ∨ c = 0x0a then (buf, c :: s)
    else if c = 0x5c then readString (readEscape buf s).1 (readEscape buf s).2 s
    else readString 0 (bufAppend buf c) s

/-- A string literal, after its opening quote. -/
def lexString (s : List UInt8) : KeymapToken × List UInt8 :=
  match bufFinish (readString 0 [] s).1, (readString 0 [] s).2 with
  | some bytes, 0x22 :: rest => (.string (cString bytes), rest)
  | _, rest => (.error, rest)

/-- A key name, after its `<`. -/
def lexKeyName (s : List UInt8) : KeymapToken × List UInt8 :=
  let name := s.takeWhile fun c => isGraph c && c != 0x3e
  match s.drop name.length with
  | 0x3e :: rest => (.keyName name, rest)
  | rest => (.error, rest)

/-- Operators and punctuation. -/
def punctuation : List (UInt8 × KeymapToken) :=
  [(0x3b, .semi), (0x7b, .obrace), (0x7d, .cbrace), (0x3d, .equals), (0x5b, .obracket),
    (0x5d, .cbracket), (0x28, .oparen), (0x29, .cparen), (0x2e, .dot), (0x2c, .comma),
    (0x2b, .plus), (0x2d, .minus), (0x2a, .times), (0x2f, .divide), (0x21, .exclam),
    (0x7e, .invert)]

/-- `scanner_dec_int64` and `scanner_hex_int64`: the number of digits or -1, the number, and the
rest. -/
def scannerInt64 (parse : List UInt8 → ℕ → Option (ℤ × ℕ)) (s : List UInt8) : ℤ × ℕ × List UInt8 :=
  let (count, val) := (parse s s.length).getD (-1, 0)
  if 0 < count then
    if 2 ^ 63 ≤ val then (-1, 0, s) else (count, val, s.drop count.toNat)
  else (count, 0, s)

/-- `number`, and the error for what is no token. -/
def lexNumber (s : List UInt8) : KeymapToken × List UInt8 :=
  match s with
  | 0x30 :: 0x78 :: s =>
    let (count, num, rest) := scannerInt64 parseHexToUint64T s
    (if 0 < count then .integer num else .error, rest)
  | s =>
    let (count, num, rest) := scannerInt64 parseDecToUint64T s
    if 0 < count then
      match rest with
      | 0x2e :: s =>
        let (count, _, rest) := scannerInt64 parseDecToUint64T s
        (if count < 0 then .error else .float num, rest)
      | rest => (if count = 1 then .decimalDigit num else .integer num, rest)
    else (.error, rest)

/-- `_xkbcommon_lex`, with the keywords of `keyword_to_token`. -/
def xkbcommonLex (keywordToToken : List UInt8 → Option ℕ) (s : List UInt8) :
    KeymapToken × List UInt8 :=
  match skipWhitespaceAndComments false s with
  | [] => (.endOfFile, [])
  | c :: s =>
    if c = 0x22 then lexString s
    else if c = 0x3c then lexKeyName s
    else
      match punctuation.lookup c with
      | some tok => (tok, s)
      | none =>
        if isAlpha c ∨ c = 0x5f then
          let name := (c :: s).takeWhile isIdentChar
          ((keywordToToken name).elim (.ident name) .keyword, (c :: s).drop name.length)
        else lexNumber (c :: s)

/-! ### The writer -/

/-- The third and the fourth digit of an octal escape sequence. -/
def octalDigits (c : UInt8) : UInt8 × UInt8 := (0x30 + c >>> (3 : UInt8), 0x30 + (c &&& 7))

/-- The escape sequence of a character that needs one. -/
def escapeSequence (c : UInt8) : Option (List UInt8) :=
  if c = 0x0a then some [0x5c, 0x6e]
  else if c = 0x5c then some [0x5c, 0x5c]
  else if c < 0x20 ∨ c = 0x22 then some [0x5c, 0x30, 0x30, (octalDigits c).1, (octalDigits c).2]
  else none

/-- The loop of `check_write_string_literal`, with what is written and the pending chunk. -/
def writeChunks : List UInt8 → List UInt8 → List UInt8 → List UInt8
  | buf, pending, [] => buf ++ pending
  | buf, pending, c :: s =>
    match escapeSequence c with
    | some escape => writeChunks (buf ++ pending ++ escape) [] s
    | none => writeChunks buf (pending ++ [c]) s

/-- `check_write_string_literal`. -/
def checkWriteStringLiteral (buf string : List UInt8) : List UInt8 :=
  writeChunks (buf ++ [0x22]) [] string ++ [0x22]

theorem writeChunks_eq (pending : List UInt8) :
    writeChunks buf pending s =
      buf ++ pending ++ s.flatMap fun c => (escapeSequence c).getD [c] := by
  induction s generalizing buf pending with
  | nil => simp [writeChunks]
  | cons c s ih =>
    rw [writeChunks, flatMap_cons]
    cases escapeSequence c <;> simp [ih]

/-! ### Literals are read back -/

/-- The four digits of an escape sequence give the character back. -/
theorem scannerOct_escape (hc : c < 0x20 ∨ c = 0x22) {rest : List UInt8} :
    scannerOct 4 0 0 (0x30 :: 0x30 :: (octalDigits c).1 :: (octalDigits c).2 :: rest) =
      (4, some c.toNat) := by
  have hall : ∀ n : Fin 0x23, ∀ digits, octalDigits (UInt8.ofNat n.val) = digits →
      (0x30 ≤ digits.1 ∧ digits.1 ≤ 0x37) ∧ (0x30 ≤ digits.2 ∧ digits.2 ≤ 0x37) ∧
        digits.1.toNat - 0x30 < 0o40 ∧
        (digits.1.toNat - 0x30) * 8 + (digits.2.toNat - 0x30) = n.val := by
    simp only [forall_eq']
    decide +kernel
  have hlt : c.toNat < 0x23 := by
    rcases hc with hc | rfl
    · exact (UInt8.lt_iff_toNat_lt.mp hc).trans (by decide)
    · decide
  obtain ⟨hhigh, hlow, hroom, hvalue⟩ := hall ⟨c.toNat, hlt⟩ (octalDigits c) (by simp)
  simp [scannerOct, hhigh, hlow, hroom, hvalue]

theorem readString_escape (hc : c ≠ 0) (hbuf : buf.length + 1 < scannerBufSize) :
    readString 0 buf ((escapeSequence c).getD [c] ++ s) = readString 0 (buf ++ [c]) s := by
  rw [← bufAppend_eq hbuf]
  unfold escapeSequence
  split_ifs with hnl hslash hoct
  · subst hnl
    rfl
  · subst hslash
    rfl
  · have hpos : c.toNat ≠ 0 := fun h => hc (UInt8.toNat_inj.mp h)
    have hescape : readEscape buf (0x30 :: 0x30 :: (octalDigits c).1 :: (octalDigits c).2 :: s) =
        (4, bufAppend buf c) := by
      have hnone : charEscapes.lookup 0x30 = none := rfl
      rw [readEscape, hnone, scannerOct_escape hoct]
      simp [hpos]
    show readString 0 buf (0x5c :: 0x30 :: 0x30 :: (octalDigits c).1 :: (octalDigits c).2 :: s) = _
    rw [readString, if_neg (by decide), if_pos rfl, hescape]
    rfl
  · show readString 0 buf (c :: s) = _
    rw [readString, if_neg (by simp_all), if_neg hslash]

theorem readString_literal (hnul : 0 ∉ s) (hlen : buf.length + s.length < scannerBufSize)
    (rest : List UInt8) :
    readString 0 buf ((s.flatMap fun c => (escapeSequence c).getD [c]) ++ 0x22 :: rest) =
      (buf ++ s, 0x22 :: rest) := by
  induction s generalizing buf with
  | nil => rw [append_nil]; rfl
  | cons c s ih =>
    obtain ⟨hc, hs⟩ := not_or.mp (mt mem_cons.mpr hnul)
    rw [length_cons] at hlen
    rw [flatMap_cons, append_assoc, readString_escape (Ne.symm hc) (by omega), ih hs]
    · simp
    · rw [length_append, length_singleton]
      omega

/-- **A string literal is read back**: the lexer takes it as one token, whatever follows, and at
the end of the text there is no other. -/
theorem xkbcommonLex_writeStringLiteral (keywordToToken : List UInt8 → Option ℕ)
    {s : List UInt8} (hnul : 0 ∉ s) (hlen : s.length < 1023) (rest : List UInt8) :
    xkbcommonLex keywordToToken (checkWriteStringLiteral [] s ++ rest) = (.string s, rest) ∧
      xkbcommonLex keywordToToken [] = (.endOfFile, []) := by
  refine ⟨?_, rfl⟩
  have hread : readString 0 [] ((s.flatMap fun c => (escapeSequence c).getD [c]) ++ 0x22 :: rest) =
      (s, 0x22 :: rest) :=
    readString_literal hnul ((zero_add _).trans_lt (hlen.trans (by decide))) rest
  have htext : checkWriteStringLiteral [] s ++ rest =
      0x22 :: ((s.flatMap fun c => (escapeSequence c).getD [c]) ++ 0x22 :: rest) := by
    simp [checkWriteStringLiteral, writeChunks_eq]
  have hfinish : bufFinish s = some s := if_pos (Nat.succ_lt_succ hlen)
  rw [htext]
  show lexString _ = _
  rw [lexString, hread, hfinish]
  show (KeymapToken.string (cString s), rest) = _
  rw [cString_eq_self hnul]

/-- A string with a quote, a control character before a digit, and a backslash. -/
theorem xkbcommonLex_writeStringLiteral_quote :
    checkWriteStringLiteral [] (ascii "a\"\t7\\") = ascii "\"a\\0042\\00117\\\\\"" ∧
      xkbcommonLex (fun _ => none) (checkWriteStringLiteral [] (ascii "a\"\t7\\") ++ []) =
        (.string (ascii "a\"\t7\\"), []) :=
  ⟨by decide +kernel, (xkbcommonLex_writeStringLiteral _ (by decide) (by decide) []).1⟩

end Xkbcommon.Xkbcomp
