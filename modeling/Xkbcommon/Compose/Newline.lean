import Xkbcommon.Compose.Parser

/-!
# The end of a line and the end of a Compose file

No token of the lexer extends over a newline. Hence a newline in the input changes nothing in
what is read before it, except that the end of the line is found in place of the end of the
file (`Xkbcommon.lex_newline`, `Xkbcommon.lexIncludeString_newline`). The parser is then in the
same state at both, and the main result says what the two ends do there.

At most labels they do the same. There are two exceptions: after the path of an include, and
after the string of a production, the end of the line completes the statement, and the end of
the file is an unexpected token, so that the statement is dropped.
-/

namespace Xkbcommon

open List ParserLabel

variable {table : ComposeTable} {bytes s buf : List UInt8} {p p' : Parser} {fuel : ℕ}
  {env : ComposeEnv} {c : UInt8}

/-! ### Lexing before a newline -/

section Lexing

variable (rest : List UInt8)

theorem skipBlanks_newline (comment : Bool) :
    skipBlanks comment (s ++ 0x0a :: rest) =
      if skipBlanks comment s = (false, []) then (true, rest)
      else ((skipBlanks comment s).1, (skipBlanks comment s).2 ++ 0x0a :: rest) := by
  induction s generalizing comment with
  | nil => rfl
  | cons c s ih =>
    rw [cons_append, skipBlanks, skipBlanks, ih, ih]
    split_ifs <;> first | rfl | simp_all

theorem skipSpaces_newline :
    skipSpaces (s ++ 0x0a :: rest) =
      if skipSpaces s = (false, []) then (true, rest)
      else ((skipSpaces s).1, (skipSpaces s).2 ++ 0x0a :: rest) := by
  induction s with
  | nil => rfl
  | cons c s ih =>
    rw [cons_append, skipSpaces, skipSpaces, ih]
    split_ifs <;> first | rfl | simp_all

theorem skipToEol_newline : skipToEol (s ++ 0x0a :: rest) = skipToEol s ++ 0x0a :: rest := by
  induction s with
  | nil => rfl
  | cons c s ih =>
    rw [cons_append, skipToEol, skipToEol, ih]
    split_ifs <;> rfl

theorem scanKeysym_newline :
    scanKeysym buf (s ++ 0x0a :: rest) =
      ((scanKeysym buf s).1, (scanKeysym buf s).2 ++ 0x0a :: rest) := by
  induction s generalizing buf with
  | nil => rfl
  | cons c s ih =>
    rw [cons_append, scanKeysym, scanKeysym, ih]
    split_ifs <;> rfl

theorem scanIdent_newline :
    scanIdent buf (s ++ 0x0a :: rest) =
      ((scanIdent buf s).1, (scanIdent buf s).2 ++ 0x0a :: rest) := by
  induction s generalizing buf with
  | nil => rfl
  | cons c s ih =>
    rw [cons_append, scanIdent, scanIdent, ih]
    split_ifs <;> rfl

theorem scannerHex_newline (left count out : ℕ) (s : List UInt8) :
    scannerHex left count out (s ++ 0x0a :: rest) = scannerHex left count out s := by
  induction left generalizing count out s with
  | zero => rfl
  | succ left ih =>
    cases s with
    | nil => rfl
    | cons c s =>
      rw [cons_append, scannerHex, scannerHex]
      split
      · exact ih _ _ s
      · rfl

theorem scannerOct_newline {left count out : ℕ} :
    scannerOct left count out (s ++ 0x0a :: rest) = scannerOct left count out s := by
  induction left generalizing count out s with
  | zero => rfl
  | succ left ih =>
    cases s with
    | nil => rfl
    | cons c s =>
      rw [cons_append, scannerOct, scannerOct, ih]

theorem scanEscape_newline : scanEscape (s ++ 0x0a :: rest) = scanEscape s := by
  cases s with
  | nil => rfl
  | cons c s =>
    rw [cons_append, scanEscape, scanEscape, scannerHex_newline, ← cons_append, scannerOct_newline]

end Lexing

/-- An escape sequence is not longer than the input. -/
theorem scannerHex_le (left count out : ℕ) (s : List UInt8) :
    (scannerHex left count out s).1 ≤ count + s.length := by
  induction left generalizing count out s with
  | zero => exact Nat.le_add_right _ _
  | succ left ih =>
    cases s with
    | nil => exact le_rfl
    | cons c s =>
      rw [scannerHex, length_cons]
      split
      · rename_i digit _
        have := ih (count + 1) (out * 16 + digit) s
        omega
      · exact Nat.le_add_right _ _

theorem scannerOct_le (left count out : ℕ) (s : List UInt8) :
    (scannerOct left count out s).1 ≤ count + s.length := by
  induction left generalizing count out s with
  | zero => exact Nat.le_add_right _ _
  | succ left ih =>
    cases s with
    | nil => exact le_rfl
    | cons c s =>
      rw [scannerOct, length_cons]
      have := ih (count + 1) (out * 8 + (c.toNat - 0x30)) s
      split_ifs
      · omega
      · dsimp only
        omega
      · exact Nat.le_add_right _ _

theorem scanEscape_le (s : List UInt8) : (scanEscape s).1 ≤ s.length := by
  cases s with
  | nil => exact le_rfl
  | cons c s =>
    have hhex := scannerHex_le 2 0 0 s
    have hoct := scannerOct_le 4 0 0 (c :: s)
    rw [scanEscape, length_cons]
    split_ifs
    · exact Nat.le_add_left _ _
    · exact Nat.le_add_left _ _
    · dsimp only
      omega
    · split
      all_goals
        rename_i heq
        rw [heq] at hoct
        simpa using hoct

section Lexing

variable (rest : List UInt8)

theorem scanString_newline (skip : ℕ) (buf : List UInt8) (hskip : skip ≤ s.length) :
    scanString skip buf (s ++ 0x0a :: rest) =
      ((scanString skip buf s).1, (scanString skip buf s).2 ++ 0x0a :: rest) := by
  induction s generalizing skip buf with
  | nil =>
    obtain rfl : skip = 0 := Nat.le_zero.mp hskip
    rfl
  | cons c s ih =>
    cases skip with
    | succ skip => exact ih skip buf (Nat.le_of_succ_le_succ hskip)
    | zero =>
      have hescape := scanEscape_le s
      rw [cons_append, scanString, scanString, scanEscape_newline]
      split_ifs
      · rfl
      · split
        all_goals
          rename_i heq
          rw [heq] at hescape
          exact ih _ _ hescape
      · exact ih _ _ (Nat.zero_le _)

theorem lexKeysymLiteral_newline :
    lexKeysymLiteral (s ++ 0x0a :: rest) =
      ((lexKeysymLiteral s).1, (lexKeysymLiteral s).2 ++ 0x0a :: rest) := by
  rw [lexKeysymLiteral, lexKeysymLiteral, scanKeysym_newline]
  rcases scanKeysym [] s with ⟨buf, _ | ⟨c, s'⟩⟩
  · rfl
  · by_cases hc : c = 0x3e
    · subst hc
      rfl
    · simp [hc]

theorem lexStringLiteral_newline :
    lexStringLiteral (s ++ 0x0a :: rest) =
      ((lexStringLiteral s).1, (lexStringLiteral s).2 ++ 0x0a :: rest) := by
  rw [lexStringLiteral, lexStringLiteral, scanString_newline rest 0 [] (Nat.zero_le _)]
  rcases scanString 0 [] s with ⟨buf, _ | ⟨c, s'⟩⟩
  · rfl
  · by_cases hc : c = 0x22
    · subst hc
      rfl
    · simp [hc]

theorem lexToken_newline :
    lexToken c (s ++ 0x0a :: rest) = ((lexToken c s).1, (lexToken c s).2 ++ 0x0a :: rest) := by
  unfold lexToken
  rw [lexKeysymLiteral_newline, lexStringLiteral_newline, ← cons_append, scanIdent_newline,
    skipToEol_newline]
  split_ifs <;> rfl

/-- **A newline ends the token before it**, and takes the place of the end of the file. -/
theorem lex_newline :
    lex (s ++ 0x0a :: rest) =
      if skipBlanks false s = (false, []) then (.endOfLine, rest)
      else ((lex s).1, (lex s).2 ++ 0x0a :: rest) := by
  rw [lex, lex, skipBlanks_newline]
  split_ifs with hend
  · rfl
  · rcases hblanks : skipBlanks false s with ⟨_ | _, _ | ⟨c, s'⟩⟩
    · exact absurd hblanks hend
    · exact lexToken_newline rest
    · rfl
    · rfl

theorem scanPath_stop : scanPath env buf (0x0a :: rest) = .ok (buf, 0x0a :: rest) := by
  cases rest <;> rfl

theorem scanPath_newline : scanPath env buf (s ++ 0x0a :: rest) =
      match scanPath env buf s with
      | .ok (buf', s') => .ok (buf', s' ++ 0x0a :: rest)
      | .error s' => .error (s' ++ 0x0a :: rest) := by
  fun_induction scanPath env buf s with
  | case1 buf => exact scanPath_stop rest
  | case2 buf c hstop | case5 buf c d s hstop => exact if_pos hstop
  | case3 => rfl
  | case4 buf c hstop hformat =>
    rw [cons_append, nil_append, scanPath, if_neg hstop, if_neg hformat]
    exact scanPath_stop rest
  | case6 buf d s hexpand | case7 buf d s hexpand =>
    rw [cons_append, cons_append, scanPath, hexpand]
    rfl
  | case8 buf d s buf' hexpand _ ih =>
    rw [cons_append, cons_append, scanPath, hexpand]
    exact ih
  | case9 buf c d s hstop hformat ih =>
    rw [cons_append, cons_append, scanPath, if_neg hstop, if_neg hformat]
    exact ih

theorem lexPathLiteral_newline :
    lexPathLiteral env (s ++ 0x0a :: rest) =
      ((lexPathLiteral env s).1, (lexPathLiteral env s).2 ++ 0x0a :: rest) := by
  rw [lexPathLiteral, lexPathLiteral, scanPath_newline]
  rcases scanPath env [] s with e | ⟨buf, _ | ⟨c, s'⟩⟩
  · rfl
  · rfl
  · by_cases hc : c = 0x22
    · subst hc
      rfl
    · simp [hc]

theorem lexIncludeString_newline :
    lexIncludeString env (s ++ 0x0a :: rest) =
      if skipSpaces s = (false, []) then (.endOfLine, rest)
      else ((lexIncludeString env s).1, (lexIncludeString env s).2 ++ 0x0a :: rest) := by
  rw [lexIncludeString, lexIncludeString, skipSpaces_newline]
  split_ifs with hend
  · rfl
  · rcases hspaces : skipSpaces s with ⟨_ | _, _ | ⟨c, s'⟩⟩
    · exact absurd hspaces hend
    · by_cases hc : c = 0x22
      · subst hc
        exact lexPathLiteral_newline rest
      · simp [hc]
    · rfl
    · rfl

end Lexing

/-! ### The end of the input -/

/-- No token is left. -/
def ParserLabel.atEnd (s : List UInt8) : ParserLabel → Bool
  | .include => skipSpaces s == (false, [])
  | _ => skipBlanks false s == (false, [])

/-- The state in which the parser meets the end of the input, if it gets there. -/
def parserEnd (env : ComposeEnv) (inc : Include) : ℕ → List UInt8 → Parser → Option Parser
  | 0, _, _ => none
  | fuel + 1, s, p =>
    if p.label.atEnd s then some p
    else
      match parserStep env inc p (p.label.lex env s).1 with
      | .next p' => parserEnd env inc fuel (p.label.lex env s).2 p'
      | _ => none

/-- **The state in which the parser of a file meets its end.** -/
def endState (env : ComposeEnv) (bytes : List UInt8) : Option Parser :=
  (checkSupportedCharEncoding bytes).bind fun s =>
    parserEnd env (doInclude env composeMaxIncludeDepth) (3 * s.length + 3) s {}

section Ends

variable {inc : Include} {tail : List UInt8} {tok : ComposeToken} {label : ParserLabel}

theorem lex_atEnd (h : label.atEnd s = true) : label.lex env s = label.lex env [] := by
  by_cases hlabel : label = .include
  · subst hlabel
    rw [atEnd, beq_iff_eq] at h
    rw [ParserLabel.lex, ParserLabel.lex, lexIncludeString, h]
    rfl
  · have hblanks : skipBlanks false s = (false, []) := by
      unfold atEnd at h
      split at h
      · exact absurd rfl hlabel
      · exact beq_iff_eq.mp h
    rw [label.lex_eq hlabel, label.lex_eq hlabel, Xkbcommon.lex, hblanks]
    rfl

/-- What may follow a line: the end of the input, or a newline. -/
def EndsLine (tail : List UInt8) : Prop := tail = [] ∨ ∃ rest, tail = 0x0a :: rest

theorem lex_append (htail : EndsLine tail) :
    label.lex env (s ++ tail) =
      if label.atEnd s then label.lex env tail
      else ((label.lex env s).1, (label.lex env s).2 ++ tail) := by
  rcases htail with rfl | ⟨rest, rfl⟩
  · split
    · rename_i hend
      rw [append_nil, lex_atEnd hend]
    · simp
  · have hnl : label.lex env (0x0a :: rest) = (.endOfLine, rest) := by cases label <;> rfl
    rw [hnl]
    unfold atEnd ParserLabel.lex
    split
    · rw [lexIncludeString_newline]
      simp
    · rw [Xkbcommon.lex_newline]
      simp

/-- A run goes through the state at the end of a line, whatever follows. -/
theorem parserRun_append (htail : EndsLine tail) (h : parserEnd env inc fuel s p = some p') :
    parserRun env inc (s ++ tail) p = parserRun env inc tail p' := by
  induction fuel generalizing s p with
  | zero => cases h
  | succ fuel ih =>
    rw [parserEnd] at h
    split at h
    · rename_i hend
      cases h
      rw [parserRun_eq, parserRun_eq, lex_append htail, if_pos hend]
    · rename_i hend
      split at h
      · rename_i hstep
        rw [parserRun_eq, lex_append htail, if_neg hend, hstep]
        exact ih h
      · cases h

/-- Only the end of the file finishes the parser. -/
theorem label_of_finished (h : parserStep env inc p tok = .finished table) :
    p.label = .initialEol ∧ tok = .endOfFile := by
  obtain ⟨v, hfits, hv, -⟩ := exists_verdict
  rw [hv] at h
  cases v with
  | finished => exact hfits
  | error =>
    rw [Verdict.apply, Parser.error] at h
    dsimp only at h
    split at h <;> cases h
  | _ => cases h

theorem lexToken_ne_endOfFile : (lexToken c s).1 ≠ .endOfFile := by
  unfold lexToken lexKeysymLiteral lexStringLiteral stringToken identToken
  split_ifs
  · split
    · rename_i buf _ _
      cases bufFinish buf <;> simp
    · simp
  · simp
  · simp
  · simp
  · split
    · split
      · split_ifs <;> simp
      · simp
    · simp
  · dsimp only
    split
    · split_ifs <;> simp
    · simp
  · simp

theorem atEnd_of_endOfFile (h : (initialEol.lex env s).1 = .endOfFile) :
    initialEol.atEnd s = true := by
  change (lex s).1 = .endOfFile at h
  change (skipBlanks false s == (false, [])) = true
  unfold lex at h
  split at h
  · cases h
  · rename_i hblanks
    exact beq_iff_eq.mpr hblanks
  · rename_i c s' _
    exact absurd h lexToken_ne_endOfFile

/-- A parser that accepts its input gets to the end of its first line. -/
theorem exists_parserEnd (htail : EndsLine tail)
    (hrun : parserRun env inc (s ++ tail) p = .ok table)
    (hfuel : 3 * s.length + p.label.weight ≤ fuel) :
    ∃ p', parserEnd env inc fuel s p = some p' := by
  induction fuel generalizing s p with
  | zero =>
    have := p.label.weight_le
    omega
  | succ fuel ih =>
    rw [parserEnd]
    split
    · exact ⟨p, rfl⟩
    · rename_i hend
      rw [parserRun_eq, lex_append htail, if_neg hend] at hrun
      split
      · rename_i p' hstep
        rw [hstep] at hrun
        have := measure_parserStep hstep
        exact ih hrun (by omega)
      · rename_i hnext
        cases hstep : parserStep env inc p (p.label.lex env s).1 with
        | next p' => exact absurd hstep (hnext p')
        | finished table' =>
          obtain ⟨hlabel, htok⟩ := label_of_finished hstep
          rw [hlabel] at htok hend
          exact absurd (atEnd_of_endOfFile htok) hend
        | error e =>
          rw [hstep] at hrun
          cases hrun

/-! ### What the two ends do -/

/-- A parser that accepts the end of its input returns its table. -/
theorem table_of_parserRun_nil (h : parserRun env inc [] p = .ok table) : table = p.table := by
  have hinitial : ∀ p : Parser, parserRun env inc [] p.initial = .ok p.table := fun _ => rfl
  have herror : ∀ p : Parser, (p.error .endOfFile).run env inc [] = .ok table →
      table = p.table := by
    intro p h
    unfold Parser.error at h
    dsimp only at h
    split at h
    · exact (Except.ok.inj ((hinitial _).symm.trans h)).symm
    · cases h
  rw [parserRun_eq] at h
  obtain ⟨label, production, n, table₀⟩ := p
  cases label
  case initialEol | skip => exact (Except.ok.inj h).symm
  case «include» =>
    -- the path is missing, which is an error, and the end of the file follows
    change (Parser.error ⟨.include, production, n, table₀⟩ .error).run env inc [] = _ at h
    unfold Parser.error at h
    dsimp only at h
    split at h
    · change parserRun env inc [] ⟨.skip, production, n + 1, table₀⟩ = _ at h
      rw [parserRun_eq] at h
      exact (Except.ok.inj h).symm
    · cases h
  all_goals exact herror _ h

/-- An error at the end of a line, for a parser that accepts one at the end of the file. -/
theorem run_error_newline (h : (p.error tok).run env inc [] = .ok table) :
    (p.error .endOfLine).run env inc [] = .ok p.table := by
  unfold Parser.error at h ⊢
  dsimp only at h ⊢
  split at h
  · rw [if_pos ‹_›]
    rfl
  · cases h

end Ends

/-! ### A trailing newline -/

/-- Two tables with the same set of entries. -/
def SameEntries (table table' : ComposeTable) : Prop :=
  ∃ es es', composeTableEntries table = some es ∧ composeTableEntries table' = some es' ∧
    ∀ e, e ∈ es ↔ e ∈ es'

/-- **No statement is open at the end of the file**, or it would change nothing: the parser is
not after the path of an include, unless the included file adds no entry, nor after the string
of a production, unless the table has the entry or is full. -/
def Parser.NothingOpen (env : ComposeEnv) (p : Parser) : Prop :=
  match p.label with
  | .includeEol path => ∃ table,
      doInclude env composeMaxIncludeDepth (cString path) p.table = .ok table ∧
      SameEntries p.table table
  | .rhs => (p.production.string = none ∧ p.production.keysym = none) ∨
      maxComposeNodes ≤ p.table.nodes.length + p.production.lhs.length ∨
      ∃ es, composeTableEntries p.table = some es ∧
        entryOf (p.production.lhs, p.production.result) ∈ es
  | _ => True

section Newline

/-- The tree has the entry. -/
def ComposeTableEntry.In (entry : ComposeTableEntry) (t : Tst Keysym ComposeResult) : Prop :=
  ∃ r, t.lookup entry.sequence = some r ∧ entryOf (entry.sequence, r) = entry

variable {table' : ComposeTable} {t t' : Tst Keysym ComposeResult}

theorem Stores.mem_entries (h : Stores table t) (entry : ComposeTableEntry) :
    entry ∈ t.entries.map entryOf ↔ entry.In t := by
  simp only [mem_map, Prod.exists, Tst.mem_entries h.ordered]
  constructor
  · rintro ⟨q, r, hr, rfl⟩
    exact ⟨r, hr, rfl⟩
  · rintro ⟨r, hr, heq⟩
    exact ⟨_, r, hr, heq⟩

theorem Stores.sameEntries_iff (h : Stores table t) (h' : Stores table' t') :
    SameEntries table table' ↔ ∀ entry : ComposeTableEntry, entry.In t ↔ entry.In t' := by
  simp only [SameEntries, composeTableEntries_eq h, composeTableEntries_eq h',
    Option.some.injEq, exists_and_left, exists_eq_left', h.mem_entries, h'.mem_entries]

theorem Built.exists_stores (h : Built table) : ∃ t, Stores table t := by
  obtain ⟨productions, hall, hadd⟩ := h
  obtain ⟨table', t, hadd', hstores, -⟩ :=
    stores_addProductions stores_empty fun production h => (hall production h).1
  obtain rfl : table = table' := Option.some.inj (hadd.symm.trans hadd')
  exact ⟨t, hstores⟩

/-- A production changes no entry exactly if it is discarded or has an entry already. -/
theorem sameEntries_addProduction {production : Production} (h : Built table)
    (hlhs : production.lhs ≠ []) (hadd : addProduction table production = some table') :
    SameEntries table table' ↔
      maxComposeNodes ≤ table.nodes.length + production.lhs.length ∨
      ∃ es, composeTableEntries table = some es ∧
        entryOf (production.lhs, production.result) ∈ es := by
  obtain ⟨t, hstores⟩ := h.exists_stores
  obtain ⟨k, s, hks⟩ := exists_cons_of_ne_nil hlhs
  obtain ⟨table₁, hadd₁, hstores'⟩ := stores_addProduction hstores hks
  obtain rfl : table' = table₁ := Option.some.inj (hadd.symm.trans hadd₁)
  rw [hstores.sameEntries_iff hstores', composeTableEntries_eq hstores]
  simp only [Option.some.injEq, exists_eq_left', hstores.mem_entries]
  by_cases hfull : maxComposeNodes ≤ table.nodes.length + production.lhs.length
  · rw [if_pos hfull]
    exact iff_of_true (fun _ => Iff.rfl) (.inl hfull)
  · rw [if_neg hfull, or_iff_right hfull]
    have hlookup := fun q => Tst.lookup_insert production.result k s t q
    simp only [← hks] at hlookup
    refine ⟨fun h => (h _).mpr ⟨_, (hlookup _).trans (if_pos rfl), rfl⟩, ?_⟩
    rintro ⟨r, hr, heq⟩ entry
    by_cases hq : entry.sequence = production.lhs
    · change t.lookup production.lhs = some r at hr
      change entryOf (production.lhs, r) = _ at heq
      simp only [ComposeTableEntry.In, hq, hr, hlookup, if_true, Option.some.injEq,
        exists_eq_left', heq]
    · have hsame : (t.insert production.result k s).lookup entry.sequence =
          t.lookup entry.sequence := by
        rw [hlookup, if_neg hq]
        split_ifs with hcmp
        · exact (Tst.lookup_eq_none_of_prefix hr hq hcmp).symm
        · rfl
      rw [ComposeTableEntry.In, ComposeTableEntry.In, hsame]

theorem sound_parserEnd (hp : p.Sound)
    (h : parserEnd env (doInclude env composeMaxIncludeDepth) fuel s p = some p') : p'.Sound := by
  induction fuel generalizing s p with
  | zero => cases h
  | succ fuel ih =>
    rw [parserEnd] at h
    split at h
    · cases h
      exact hp
    · split at h
      · rename_i p₁ hstep
        have hsound : (parserStep env (doInclude env composeMaxIncludeDepth) p
            (p.label.lex env s).1).Sound :=
          hp.parserStep _ (fun path table h => soundResult_doInclude path h)
            fun bytes => ParserLabel.isValidUtf8_of_lex
        rw [hstep] at hsound
        exact ih hsound h
      · cases h

/-- The end of the line, in the state in which a parser accepts the end of the file. -/
theorem newline_iff (hp : p.Sound)
    (hok : parserRun env (doInclude env composeMaxIncludeDepth) [] p = .ok p.table) :
    (∃ table, parserRun env (doInclude env composeMaxIncludeDepth) [0x0a] p = .ok table ∧
      SameEntries p.table table) ↔ p.NothingOpen env := by
  have hself : SameEntries p.table p.table := by
    obtain ⟨t, hstores⟩ := hp.table.exists_stores
    exact (hstores.sameEntries_iff hstores).mpr fun _ => Iff.rfl
  have hsame : parserRun env (doInclude env composeMaxIncludeDepth) [0x0a] p = .ok p.table →
      ((∃ table, parserRun env (doInclude env composeMaxIncludeDepth) [0x0a] p = .ok table ∧
        SameEntries p.table table) ↔ True) := fun h => iff_true_intro ⟨_, h, hself⟩
  rw [parserRun_eq] at hok hsame ⊢
  obtain ⟨label, production, n, table⟩ := p
  cases label
  case initialEol | skip => exact hsame rfl
  case includeEol path =>
    change (∃ table', ParserOutcome.run env _ [] (parserStep env _
        ⟨.includeEol path, production, n, table⟩ .endOfLine) = .ok table' ∧ _) ↔
      ∃ table', doInclude env composeMaxIncludeDepth (cString path) table = .ok table' ∧ _
    dsimp only [parserStep]
    cases doInclude env composeMaxIncludeDepth (cString path) table with
    | ok table' => exact Iff.rfl
    | error e => simp [ParserOutcome.run]
  case rhs =>
    change (∃ table', ParserOutcome.run env _ [] (Parser.commit ⟨.rhs, production, n, table⟩
        .endOfLine) = .ok table' ∧ SameEntries table table') ↔ _ ∨ _
    by_cases hnone : production.string = none ∧ production.keysym = none
    · rw [Parser.commit, if_pos hnone]
      exact iff_of_true ⟨table, rfl, hself⟩ (.inl hnone)
    · obtain ⟨table', hadd, -⟩ := hp.table.add (hp.lhs rfl) hp.production
      rw [Parser.commit, if_neg hnone]
      dsimp only at hadd ⊢
      rw [hadd, or_iff_right hnone, ← sameEntries_addProduction hp.table (hp.lhs rfl) hadd]
      constructor
      · rintro ⟨table₁, hrun, hentries⟩
        cases hrun
        exact hentries
      · intro hentries
        exact ⟨table', rfl, hentries⟩
  all_goals exact hsame (run_error_newline hok)

/-- A single byte is not checked, but it is before a newline. -/
theorem checkSupportedCharEncoding_singleton :
    checkSupportedCharEncoding [c, 0x0a] = if c ≠ 0 ∧ c < 0x80 then some [c, 0x0a] else none := by
  simp only [checkSupportedCharEncoding]
  split_ifs <;> simp_all [UInt8.not_le]

theorem checkSupportedCharEncoding_newline (h : checkSupportedCharEncoding bytes = some s)
    (hfirst : ∀ c, bytes = [c] → c ≠ 0 ∧ c < 0x80) :
    checkSupportedCharEncoding (bytes ++ [0x0a]) = some (s ++ [0x0a]) := by
  unfold checkSupportedCharEncoding at h
  split at h
  · cases h
    rfl
  · rename_i c d rest hbom
    split_ifs at h with hnul hascii
    cases h
    rw [cons_append, cons_append, checkSupportedCharEncoding]
    · rw [if_neg hnul, if_neg hascii]
    · rintro rest' ⟨⟩ ⟨⟩ hrest
      cases rest with
      | nil => cases hrest
      | cons e rest =>
        cases hrest
        exact hbom _ rfl rfl rfl
  · rename_i hbom htwo
    cases h
    match bytes with
    | [] => rfl
    | [c] => exact checkSupportedCharEncoding_singleton.trans (if_pos (hfirst c rfl))
    | c :: d :: rest => exact absurd rfl (htwo c d rest)

theorem parseString_of_none (h : checkSupportedCharEncoding bytes = none) :
    parseString env bytes = .error .failed := by
  rw [parseString, parse_eq, parseWith, h]

theorem parseString_of_some (h : checkSupportedCharEncoding bytes = some s) :
    parseString env bytes = parserRun env (doInclude env composeMaxIncludeDepth) s {} := by
  rw [parseString, parse_eq, parseWith, h]
  rfl

/-- **A trailing newline** is irrelevant exactly if no statement is open at the end of the file,
or it would change nothing, and a file of a single byte has an ASCII character there. -/
theorem trailing_newline (env : ComposeEnv) (bytes : List UInt8) (table : ComposeTable)
    (hok : parseString env bytes = .ok table) :
    (∃ table', parseString env (bytes ++ [0x0a]) = .ok table' ∧ SameEntries table table') ↔
      (∀ c, bytes = [c] → c ≠ 0 ∧ c < 0x80) ∧
      ∀ p, endState env bytes = some p → p.NothingOpen env := by
  have hempty : Built {} := ⟨[], nofun, rfl⟩
  cases hcheck : checkSupportedCharEncoding bytes with
  | none =>
    rw [parseString_of_none hcheck] at hok
    cases hok
  | some s =>
    rw [parseString_of_some hcheck] at hok
    rw [← append_nil s] at hok
    obtain ⟨p, hend⟩ := exists_parserEnd (.inl rfl) hok
      (Nat.add_le_add_left (weight_le _).2 (3 * s.length))
    have hstate : endState env bytes = some p := by
      rw [endState, hcheck]
      exact hend
    have hinitial : Parser.Sound {} := ⟨hempty, Production.checked_nil, nofun⟩
    have hsound := sound_parserEnd hinitial hend
    rw [parserRun_append (.inl rfl) hend] at hok
    obtain rfl := table_of_parserRun_nil hok
    rw [hstate]
    by_cases hfirst : ∀ c, bytes = [c] → c ≠ 0 ∧ c < 0x80
    · rw [parseString_of_some (checkSupportedCharEncoding_newline hcheck hfirst),
        parserRun_append (.inr ⟨[], rfl⟩) hend, newline_iff hsound hok]
      constructor
      · refine fun hopen => ⟨hfirst, ?_⟩
        rintro _ ⟨⟩
        exact hopen
      · exact fun h => h.2 p rfl
    · obtain ⟨c, rfl, hc⟩ : ∃ c, bytes = [c] ∧ ¬(c ≠ 0 ∧ c < 0x80) := by
        simpa only [not_forall, exists_prop] using hfirst
      have hrejected : checkSupportedCharEncoding ([c] ++ [0x0a]) = none := by
        rw [singleton_append, checkSupportedCharEncoding_singleton, if_neg hc]
      rw [parseString_of_none hrejected]
      refine iff_of_false ?_ fun h => hfirst h.1
      rintro ⟨_, h, -⟩
      cases h

end Newline

/-- An environment without files. -/
def plainEnv : ComposeEnv := { tables := smallKeysyms }

/-- The table of one production with a keysym. -/
def keysymTable : ComposeTable := { nodes := [dummyNode, ⟨0x61, 0, 0, true, 0, 0x61⟩] }

theorem trailing_newline_keysym :
    parseString plainEnv (ascii "<a> : a") = .ok keysymTable ∧
    ∃ table', parseString plainEnv (ascii "<a> : a" ++ [0x0a]) = .ok table' ∧
      SameEntries keysymTable table' := by
  have hok : parseString plainEnv (ascii "<a> : a") = .ok keysymTable := by decide
  have hend : endState plainEnv (ascii "<a> : a") = some { table := keysymTable } := by decide
  refine ⟨hok, (trailing_newline plainEnv _ keysymTable hok).mpr ⟨nofun, fun p hp => ?_⟩⟩
  obtain rfl : { table := keysymTable } = p := Option.some.inj (hend.symm.trans hp)
  trivial

/-- The last line is dropped without a newline at its end. -/
theorem trailing_newline_lost :
    ∃ table table', parseString plainEnv (ascii "<a> : \"x\"") = .ok table ∧
      composeTableEntries table = some [] ∧
      parseString plainEnv (ascii "<a> : \"x\"" ++ [0x0a]) = .ok table' ∧
      composeTableEntries table' = some [⟨[0x61], 0, ascii "x"⟩] :=
  ⟨{}, { utf8 := [0, 0x78, 0], nodes := [dummyNode, ⟨0x61, 0, 0, true, 1, 0⟩] },
    by decide, by decide, by decide, by decide⟩

end Xkbcommon
