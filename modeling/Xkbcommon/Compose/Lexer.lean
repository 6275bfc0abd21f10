import Xkbcommon.Keysyms
import Xkbcommon.Utf8

/-!
# The lexer of Compose files

`lex` and `lex_include_string` of `src/compose/parser.c`, with the functions of
`src/scanner-utils.h` that they use. A scanner is what is left of the input, and a function
that moves it returns the new rest; reading at the end gives 0 in the source, which no
comparison below accepts. The buffer of the scanner is a list of at most
`Xkbcommon.scannerBufSize` bytes: a byte that does not fit is dropped, and then the final 0
does not fit either, so that the token is rejected.

Messages are left out, and with them the position of the token.
-/

namespace Xkbcommon

variable {bytes s buf : List UInt8}

/-- `enum rules_token`, with the values of the tokens. -/
inductive ComposeToken
  | endOfFile | endOfLine | include
  | includeString (path : List UInt8)
  | lhsKeysym (name : List UInt8)
  | colon | bang | tilde
  | string (bytes : List UInt8)
  | ident (name : List UInt8)
  | error
  deriving DecidableEq, Repr, Inhabited

/-- What the parser reads besides the file. -/
structure ComposeEnv where
  tables : KeysymData
  /-- `HOME`. -/
  home : Option (List UInt8) := none
  /-- `get_locale_compose_file_path`. -/
  localeComposeFilePath : Option (List UInt8) := none
  /-- `get_xlocaledir_path`. -/
  xlocaledirPath : List UInt8 := []
  /-- The contents of the files that can be opened and mapped. -/
  readFile : List UInt8 → Option (List UInt8) := fun _ => none

/-! ### The buffer -/

/-- The size of the buffer of a scanner. -/
def scannerBufSize : ℕ := 1024

/-- `scanner_buf_append`, whose failure is ignored by all but the last call for a token. -/
def bufAppend (buf : List UInt8) (c : UInt8) : List UInt8 :=
  if buf.length + 1 < scannerBufSize then buf ++ [c] else buf

theorem bufAppend_eq {c : UInt8} (h : buf.length + 1 < scannerBufSize) :
    bufAppend buf c = buf ++ [c] := if_pos h

/-- `scanner_buf_append` of the final 0: the value of the token. -/
def bufFinish (buf : List UInt8) : Option (List UInt8) :=
  if buf.length + 1 < scannerBufSize then some buf else none

/-- `scanner_buf_appends`. -/
def bufAppends (buf text : List UInt8) : Option (List UInt8) :=
  if buf.length + text.length < scannerBufSize then some (buf ++ text) else none

/-! ### Parts of tokens -/

/-- Spaces and comments; whether they end with a newline, which is then read. -/
def skipBlanks : Bool → List UInt8 → Bool × List UInt8
  | _, [] => (false, [])
  | comment, c :: s =>
    if c = 0x0a then (true, s)
    else if comment then skipBlanks true s
    else if isSpace c then skipBlanks false s
    else if c = 0x23 then skipBlanks true s
    else (false, c :: s)

/-- `scanner_skip_to_eol`. -/
def skipToEol : List UInt8 → List UInt8
  | [] => []
  | c :: s => if c = 0x0a then c :: s else skipToEol s

/-- The loop of a keysym literal. -/
def scanKeysym : List UInt8 → List UInt8 → List UInt8 × List UInt8
  | buf, [] => (buf, [])
  | buf, c :: s => if c = 0x3e ∨ c = 0x0a then (buf, c :: s) else scanKeysym (bufAppend buf c) s

/-- The loop of an identifier. -/
def scanIdent : List UInt8 → List UInt8 → List UInt8 × List UInt8
  | buf, [] => (buf, [])
  | buf, c :: s => if isIdentChar c then scanIdent (bufAppend buf c) s else (buf, c :: s)

/-- `scanner_hex`: the number of digits, of at most `left`, and their value. -/
def scannerHex : ℕ → ℕ → ℕ → List UInt8 → ℕ × ℕ
  | 0, count, out, _ => (count, out)
  | _ + 1, count, out, [] => (count, out)
  | left + 1, count, out, c :: s =>
    match Hex.ofByte c with
    | some digit => scannerHex left (count + 1) (out * 16 + digit) s
    | none => (count, out)

/-- `scanner_oct`: the number of digits, of at most `left`, and their value, unless it overflows
a byte. -/
def scannerOct : ℕ → ℕ → ℕ → List UInt8 → ℕ × Option ℕ
  | 0, count, out, _ => (count, some out)
  | _ + 1, count, out, [] => (count, some out)
  | left + 1, count, out, c :: s =>
    if 0x30 ≤ c ∧ c ≤ 0x37 then
      if out < 0o40 then scannerOct left (count + 1) (out * 8 + (c.toNat - 0x30)) s
      else (count + 1, none)
    else (count, some out)

/-- An escape sequence, after its backslash: the number of bytes that are read, and the byte
that is appended. An escape sequence that is not valid, or unknown, is ignored. -/
def scanEscape : List UInt8 → ℕ × Option UInt8
  | [] => (0, none)
  | c :: s =>
    if c = 0x5c then (1, some 0x5c)
    else if c = 0x22 then (1, some 0x22)
    else if c = 0x78 ∨ c = 0x58 then
      let (count, out) := scannerHex 2 0 0 s
      (count + 1, if 0 < count ∧ out ≠ 0 then some (UInt8.ofNat out) else none)
    else
      match scannerOct 4 0 0 (c :: s) with
      | (count, some out) => (count, if 0 < count ∧ out ≠ 0 then some (UInt8.ofNat out) else none)
      | (count, none) => (count, none)

/-- The loop of a string literal, in which the first `skip` bytes belong to an escape sequence
that is read already. -/
def scanString : ℕ → List UInt8 → List UInt8 → List UInt8 × List UInt8
  | _, buf, [] => (buf, [])
  | skip + 1, buf, _ :: s => scanString skip buf s
  | 0, buf, c :: s =>
    if c = 0x22 ∨ c = 0x0a then (buf, c :: s)
    else if c = 0x5c then
      match scanEscape s with
      | (count, some o) => scanString count (bufAppend buf o) s
      | (count, none) => scanString count buf s
    else scanString 0 (bufAppend buf c) s

/-! ### Tokens -/

/-- A keysym literal, after its `<`. -/
def lexKeysymLiteral (s : List UInt8) : ComposeToken × List UInt8 :=
  match scanKeysym [] s with
  | (buf, 0x3e :: rest) => ((bufFinish buf).elim .error .lhsKeysym, rest)
  | (_, rest) => (.error, rest)

/-- The token of a string literal, whose contents are in the buffer. -/
def stringToken (buf : List UInt8) : ComposeToken :=
  match bufFinish buf with
  | some bytes => if isValidUtf8 bytes then .string bytes else .error
  | none => .error

/-- A string literal, after its opening quote. -/
def lexStringLiteral (s : List UInt8) : ComposeToken × List UInt8 :=
  match scanString 0 [] s with
  | (buf, 0x22 :: rest) => (stringToken buf, rest)
  | (_, rest) => (.error, rest)

/-- The token of an identifier. -/
def identToken (buf : List UInt8) : ComposeToken :=
  match bufFinish buf with
  | some name => if name = ascii "include" then .include else .ident name
  | none => .error

/-- A token that starts with `c`. -/
def lexToken (c : UInt8) (s : List UInt8) : ComposeToken × List UInt8 :=
  if c = 0x3c then lexKeysymLiteral s
  else if c = 0x3a then (.colon, s)
  else if c = 0x21 then (.bang, s)
  else if c = 0x7e then (.tilde, s)
  else if c = 0x22 then lexStringLiteral s
  else if isAlpha c ∨ c = 0x5f then
    let (buf, rest) := scanIdent [] (c :: s)
    (identToken buf, rest)
  else (.error, skipToEol (c :: s))

/-- `lex`. -/
def lex (s : List UInt8) : ComposeToken × List UInt8 :=
  match skipBlanks false s with
  | (true, rest) => (.endOfLine, rest)
  | (false, []) => (.endOfFile, [])
  | (false, c :: s) => lexToken c s

variable (env : ComposeEnv) {c : UInt8}

/-- The %-expansion of a character: `none` if it is not a format, and then the character is not
read; `some none` if the expansion fails. -/
def expandFormat (buf : List UInt8) (d : UInt8) : Option (Option (List UInt8)) :=
  if d = 0x25 then some (some (bufAppend buf 0x25))
  else if d = 0x48 then some (env.home.bind (bufAppends buf))
  else if d = 0x4c then some (env.localeComposeFilePath.bind (bufAppends buf))
  else if d = 0x53 then some (bufAppends buf env.xlocaledirPath)
  else none

/-- The loop of a path: the path and the rest, or the rest at an error. -/
def scanPath (env : ComposeEnv) :
    List UInt8 → List UInt8 → Except (List UInt8) (List UInt8 × List UInt8)
  | buf, [] => .ok (buf, [])
  | buf, [c] =>
    if c = 0x22 ∨ c = 0x0a then .ok (buf, [c])
    else if c = 0x25 then .error []
    else .ok (bufAppend buf c, [])
  | buf, c :: d :: s =>
    if c = 0x22 ∨ c = 0x0a then .ok (buf, c :: d :: s)
    else if c = 0x25 then
      match expandFormat env buf d with
      | none => .error (d :: s)
      | some none => .error s
      | some (some buf) => scanPath env buf s
    else scanPath env (bufAppend buf c) (d :: s)

/-- A path, after its opening quote. -/
def lexPathLiteral (s : List UInt8) : ComposeToken × List UInt8 :=
  match scanPath env [] s with
  | .ok (buf, 0x22 :: rest) => ((bufFinish buf).elim .error .includeString, rest)
  | .ok (_, rest) => (.error, rest)
  | .error rest => (.error, rest)

/-- The spaces before a path; whether they end with a newline. -/
def skipSpaces : List UInt8 → Bool × List UInt8
  | [] => (false, [])
  | c :: s => if c = 0x0a then (true, s) else if isSpace c then skipSpaces s else (false, c :: s)

/-- `lex_include_string`. -/
def lexIncludeString (s : List UInt8) : ComposeToken × List UInt8 :=
  match skipSpaces s with
  | (true, rest) => (.endOfLine, rest)
  | (false, 0x22 :: s) => lexPathLiteral env s
  | (false, rest) => (.error, rest)

/-! ### A token takes bytes -/

theorem length_skipBlanks (comment : Bool) (s : List UInt8) :
    (skipBlanks comment s).2.length + (skipBlanks comment s).1.toNat ≤ s.length := by
  induction s generalizing comment with
  | nil => exact le_rfl
  | cons c s ih =>
    rw [skipBlanks, List.length_cons]
    have h := ih true
    have h' := ih false
    split_ifs
    · rfl
    · omega
    · omega
    · omega
    · rfl

theorem length_skipSpaces (s : List UInt8) :
    (skipSpaces s).2.length + (skipSpaces s).1.toNat ≤ s.length := by
  induction s with
  | nil => exact le_rfl
  | cons c s ih =>
    rw [skipSpaces, List.length_cons]
    split_ifs
    · rfl
    · omega
    · rfl

theorem length_skipToEol : (skipToEol s).length ≤ s.length := by
  induction s with
  | nil => exact le_rfl
  | cons c s ih =>
    rw [skipToEol]
    split_ifs
    · rfl
    · exact ih.trans (Nat.le_succ _)

theorem length_scanKeysym (buf s : List UInt8) : (scanKeysym buf s).2.length ≤ s.length := by
  induction s generalizing buf with
  | nil => exact le_rfl
  | cons c s ih =>
    rw [scanKeysym]
    split_ifs
    · rfl
    · exact (ih _).trans (Nat.le_succ _)

theorem length_scanIdent (buf : List UInt8) : (scanIdent buf s).2.length ≤ s.length := by
  induction s generalizing buf with
  | nil => exact le_rfl
  | cons c s ih =>
    rw [scanIdent]
    split_ifs
    · exact (ih _).trans (Nat.le_succ _)
    · rfl

theorem length_scanString (skip : ℕ) (buf s : List UInt8) :
    (scanString skip buf s).2.length ≤ s.length := by
  induction s generalizing skip buf with
  | nil =>
    cases skip <;> exact le_rfl
  | cons c s ih =>
    cases skip with
    | succ skip => exact (ih _ _).trans (Nat.le_succ _)
    | zero =>
      rw [scanString]
      split_ifs
      · rfl
      · split <;> exact (ih _ _).trans (Nat.le_succ _)
      · exact (ih _ _).trans (Nat.le_succ _)

theorem length_lexKeysymLiteral : (lexKeysymLiteral s).2.length ≤ s.length := by
  have h := length_scanKeysym [] s
  unfold lexKeysymLiteral
  split
  · rename_i heq
    rw [heq] at h
    exact (Nat.le_succ _).trans h
  · rename_i heq
    rw [heq] at h
    exact h

theorem length_lexStringLiteral : (lexStringLiteral s).2.length ≤ s.length := by
  have h := length_scanString 0 [] s
  unfold lexStringLiteral
  split
  · rename_i heq
    rw [heq] at h
    exact (Nat.le_succ _).trans h
  · rename_i heq
    rw [heq] at h
    exact h

theorem length_lexToken (s : List UInt8) (hc : c ≠ 0x0a) : (lexToken c s).2.length ≤ s.length := by
  unfold lexToken
  split_ifs with hlt hcolon hbang htilde hquote hident
  · exact length_lexKeysymLiteral
  · exact le_rfl
  · exact le_rfl
  · exact le_rfl
  · exact length_lexStringLiteral
  · -- the first character is one of an identifier
    have hchar : isIdentChar c = true := by
      unfold isIdentChar isAlnum
      rcases hident with h | h <;> simp [h]
    rw [scanIdent, if_pos hchar]
    exact length_scanIdent _
  · rw [skipToEol, if_neg hc]
    exact length_skipToEol

theorem head_skipBlanks {comment : Bool} {rest : List UInt8}
    (h : skipBlanks comment s = (false, c :: rest)) : c ≠ 0x0a := by
  induction s generalizing comment with
  | nil => cases h
  | cons d s ih =>
    rw [skipBlanks] at h
    split_ifs at h with hnl hcomment hspace hhash
    · cases h
    · exact ih h
    · exact ih h
    · exact ih h
    · cases h
      exact hnl

/-- **A token takes at least one byte**, except for the end of the file, which is at the end. -/
theorem length_lex (s : List UInt8) : (lex s).2.length < s.length ∨ lex s = (.endOfFile, []) := by
  have hblanks := length_skipBlanks false s
  unfold lex
  split
  · rename_i heq
    rw [heq] at hblanks
    exact .inl hblanks
  · exact .inr rfl
  · rename_i c rest heq
    rw [heq] at hblanks
    have := length_lexToken rest (head_skipBlanks heq)
    simp only [List.length_cons] at hblanks
    exact .inl (by omega)

/-- What is left of a path, or after an error in it. -/
def pathRest : Except (List UInt8) (List UInt8 × List UInt8) → List UInt8
  | .ok (_, rest) => rest
  | .error rest => rest

theorem length_scanPath (buf s : List UInt8) :
    (pathRest (scanPath env buf s)).length ≤ s.length := by
  fun_induction scanPath env buf s with
  | case1 | case2 | case5 => exact le_rfl
  | case3 | case4 => exact Nat.zero_le _
  | case6 => exact Nat.le_succ _
  | case7 => exact (Nat.le_succ _).trans (Nat.le_succ _)
  | case8 => exact Nat.le_succ_of_le (Nat.le_succ_of_le ‹_›)
  | case9 => exact Nat.le_succ_of_le ‹_›

theorem length_lexPathLiteral : (lexPathLiteral env s).2.length ≤ s.length := by
  have h := length_scanPath env [] s
  unfold lexPathLiteral
  split
  · rename_i heq
    rw [heq] at h
    exact (Nat.le_succ _).trans h
  · rename_i heq
    rw [heq] at h
    exact h
  · rename_i heq
    rw [heq] at h
    exact h

theorem length_lexIncludeString (s : List UInt8) :
    (lexIncludeString env s).2.length ≤ s.length := by
  have hspaces := length_skipSpaces s
  unfold lexIncludeString
  split
  · rename_i rest heq
    rw [heq] at hspaces
    exact (Nat.le_succ _).trans hspaces
  · rename_i rest heq
    rw [heq] at hspaces
    exact (length_lexPathLiteral env).trans ((Nat.le_succ _).trans hspaces)
  · rename_i heq
    rw [heq] at hspaces
    exact hspaces

/-! ### The strings of tokens -/

theorem isValidUtf8_of_stringToken (h : stringToken buf = .string bytes) :
    isValidUtf8 bytes = true := by
  unfold stringToken at h
  split at h
  · split at h
    · rename_i hvalid
      cases h
      exact hvalid
    · cases h
  · cases h

theorem isValidUtf8_of_lexToken (h : (lexToken c s).1 = .string bytes) :
    isValidUtf8 bytes = true := by
  unfold lexToken at h
  split_ifs at h
  · unfold lexKeysymLiteral at h
    split at h
    · rename_i buf _ _
      cases hfinish : bufFinish buf <;> rw [hfinish] at h <;> cases h
    · cases h
  · unfold lexStringLiteral at h
    split at h
    · exact isValidUtf8_of_stringToken h
    · cases h
  · dsimp only at h
    unfold identToken at h
    split at h
    · split at h <;> cases h
    · cases h

/-- The value of a string is valid UTF-8. -/
theorem isValidUtf8_of_lex (h : (lex s).1 = .string bytes) : isValidUtf8 bytes = true := by
  unfold lex at h
  split at h
  · cases h
  · cases h
  · exact isValidUtf8_of_lexToken h

theorem lexIncludeString_ne_string : (lexIncludeString env s).1 ≠ .string bytes := by
  unfold lexIncludeString
  split
  · simp
  · unfold lexPathLiteral
    split
    · rename_i buf _ _
      cases bufFinish buf <;> simp
    · simp
    · simp
  · simp

example : lex (ascii " # x\n:") = (.endOfLine, ascii ":") := by decide

example : lex (ascii "\"\\x41\\102\\\"\\q\"Z") = (.string (ascii "AB\"q"), ascii "Z") := by decide

end Xkbcommon
