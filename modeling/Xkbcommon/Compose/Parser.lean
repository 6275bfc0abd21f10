import Xkbcommon.Compose.Lexer
import Xkbcommon.Compose.Entries

/-!
# The parser of Compose files

`parse` of `src/compose/parser.c`. Its labels are the states of a machine
(`Xkbcommon.ParserLabel`), which reads one token in each step (`Xkbcommon.parserStep`); the
loop `Xkbcommon.parserLoop` runs the machine to the end of the file. An included file is parsed
by a machine of its own, with the table of the including one, and `Xkbcommon.parse` counts the
files that may still be nested.

The modifiers of a production are checked but not kept: nothing reads them.
-/

namespace Xkbcommon

open List Production

variable {table : ComposeTable} {s : List UInt8} {inc : Include} {tok : ComposeToken}

/-! ### The machine -/

/-- The labels of `parse` at which a token is read. -/
inductive ParserLabel
  | initialEol | include
  | includeEol (path : List UInt8)
  | lhs | lhsKeysym | lhsModList
  /-- In `lhs_mod_list_tok`, after a tilde. -/
  | lhsModTilde
  | rhs | skip
  deriving DecidableEq, Repr, Inhabited

/-- The variables of `parse`. -/
structure Parser where
  label : ParserLabel := .initialEol
  production : Production := { lhs := [] }
  numErrors : ℕ := 0
  table : ComposeTable := {}
  deriving DecidableEq, Repr, Inhabited

variable {p p' : Parser} {fuel left : ℕ}

/-- Why there is no table. -/
inductive ParseError
  | failed | outOfFuel
  deriving DecidableEq, Repr, Inhabited

/-- What a token leads to. -/
inductive ParserOutcome
  | next (p : Parser)
  | finished (table : ComposeTable)
  | error (e : ParseError)
  deriving DecidableEq, Repr, Inhabited

/-- `MAX_ERRORS`. -/
def maxErrors : ℕ := 10

/-- `XKB_COMPOSE_MAX_STRING_SIZE`. -/
def composeMaxStringSize : ℕ := 256

/-- `COMPOSE_MAX_INCLUDE_DEPTH`. -/
def composeMaxIncludeDepth : ℕ := 5

/-- `resolve_modifier`. -/
def resolveModifier (name : List UInt8) : Option ℕ :=
  ([(ascii "Shift", 0), (ascii "Ctrl", 2), (ascii "Alt", 3), (ascii "Meta", 3), (ascii "Lock", 1),
    (ascii "Caps", 1)].find? fun mod => mod.1 == name).map Prod.snd

namespace Parser

variable (env : ComposeEnv) (p : Parser)

/-- The label `initial`. -/
def initial : Parser := { p with label := .initialEol, production := { lhs := [] } }

/-- The label `skip`. -/
def skip (tok : ComposeToken) : Parser :=
  match tok with
  | .endOfLine | .endOfFile => p.initial
  | _ => { p with label := .skip }

/-- The label `error`. -/
def error (tok : ComposeToken) : ParserOutcome :=
  let p := { p with numErrors := p.numErrors + 1 }
  if p.numErrors ≤ maxErrors then .next (p.skip tok) else .error .failed

/-- The label `lhs_keysym_tok`. -/
def lhsKeysymTok (tok : ComposeToken) : ParserOutcome :=
  match tok with
  | .lhsKeysym name =>
    let keysym := keysymFromName env.tables.toKeysymTables (cString name)
    if keysym = noSymbol then p.error tok
    else if composeMaxLhsLen < p.production.lhs.length + 1 then .next (p.skip tok)
    else .next { p with
      label := .lhs
      production := { p.production with lhs := p.production.lhs ++ [keysym] } }
  | _ => p.error tok

/-- The end of `lhs_mod_list_tok`, with the name of a modifier. -/
def modifier (name : List UInt8) (tok : ComposeToken) : ParserOutcome :=
  match resolveModifier name with
  | none => p.error tok
  | some _ => .next { p with label := .lhsModList }

/-- The label `lhs_mod_list_tok`. -/
def lhsModListTok (tok : ComposeToken) : ParserOutcome :=
  match tok with
  | .tilde => .next { p with label := .lhsModTilde }
  | .ident name => p.modifier name tok
  | _ => p.lhsKeysymTok env tok

/-- The label `lhs_tok`. -/
def lhsTok (tok : ComposeToken) : ParserOutcome :=
  match tok with
  | .colon => if p.production.lhs = [] then .next (p.skip tok) else .next { p with label := .rhs }
  | .ident name =>
    if name = ascii "None" then .next { p with label := .lhsKeysym } else p.lhsModListTok env tok
  | .tilde => p.lhsModListTok env tok
  | .bang => .next { p with label := .lhsModList }
  | _ => p.lhsKeysymTok env tok

/-- The end of a production. -/
def commit (tok : ComposeToken) : ParserOutcome :=
  if p.production.string = none ∧ p.production.keysym = none then .next (p.skip tok)
  else
    match addProduction p.table p.production with
    | none => .error .outOfFuel
    | some table => .next { p with table := table }.initial

/-- The label `rhs`. The length of a string includes its final 0, so that an empty string is not
rejected. -/
def rhsTok (tok : ComposeToken) : ParserOutcome :=
  match tok with
  | .string bytes =>
    if p.production.string.isSome then .next (p.skip tok)
    else if composeMaxStringSize < bytes.length + 1 then .next (p.skip tok)
    else .next { p with production := { p.production with string := some bytes } }
  | .ident name =>
    let keysym := keysymFromName env.tables.toKeysymTables (cString name)
    if keysym = noSymbol then p.error tok
    else if p.production.keysym.isSome then .next (p.skip tok)
    else { p with production := { p.production with keysym := some keysym } }.commit tok
  | .endOfLine => p.commit tok
  | _ => p.error tok

end Parser

/-- How a file is included into a table. -/
abbrev Include := List UInt8 → ComposeTable → Except ParseError ComposeTable

/-- One step of `parse`: what a token does at a label. -/
def parserStep (env : ComposeEnv) (inc : Include) (p : Parser) (tok : ComposeToken) :
    ParserOutcome :=
  match p.label with
  | .initialEol =>
    match tok with
    | .endOfLine => .next p
    | .endOfFile => .finished p.table
    | .include => .next { p with label := .include }
    | _ => p.lhsTok env tok
  | .include =>
    match tok with
    | .includeString path => .next { p with label := .includeEol path }
    | _ => p.error tok
  | .includeEol path =>
    match tok with
    | .endOfLine =>
      match inc (cString path) p.table with
      | .ok table => .next { p with table := table }.initial
      | .error e => .error e
    | _ => p.error tok
  | .lhs => p.lhsTok env tok
  | .lhsKeysym => p.lhsKeysymTok env tok
  | .lhsModList => p.lhsModListTok env tok
  | .lhsModTilde =>
    match tok with
    | .ident name => p.modifier name tok
    | _ => p.error tok
  | .rhs => p.rhsTok env tok
  | .skip => .next (p.skip tok)

/-! ### Verdicts -/

section Verdicts

variable {env : ComposeEnv}

/-- What a token does at a label, whatever the number of errors so far. -/
inductive Verdict
  | stay | finished | skip | error
  | goto (label : ParserLabel) (production : Production)
  | commit (table : ComposeTable)
  | fail (e : ParseError)

namespace Verdict

def apply (p : Parser) (tok : ComposeToken) : Verdict → ParserOutcome
  | stay => .next p
  | finished => .finished p.table
  | skip => .next (p.skip tok)
  | error => p.error tok
  | goto label production => .next { p with label := label, production := production }
  | commit table => .next { p with table := table }.initial
  | fail e => .error e

/-- When a verdict is given: `initial` waits at the ends of lines and finishes at the end of the
file; a statement goes on at neither, and the end of the file completes none. -/
def Fits (label : ParserLabel) (tok : ComposeToken) : Verdict → Prop
  | stay => label = .initialEol ∧ tok = .endOfLine
  | finished => label = .initialEol ∧ tok = .endOfFile
  | goto label' _ => label' ≠ .initialEol ∧ tok ≠ .endOfLine ∧ tok ≠ .endOfFile
  | commit _ => tok ≠ .endOfFile
  | skip | error | fail _ => label = .initialEol → tok ≠ .endOfFile

end Verdict

/-- The steps of a parser, as they depend on the errors, have a common verdict. -/
def HasVerdict (label : ParserLabel) (production : Production) (table : ComposeTable)
    (tok : ComposeToken) (step : Parser → ParserOutcome) : Prop :=
  ∃ v : Verdict, v.Fits label tok ∧
    ∀ n, step ⟨label, production, n, table⟩ = v.apply ⟨label, production, n, table⟩ tok

variable {label : ParserLabel} {production : Production}

theorem hasVerdict_lhsKeysymTok (h : label = .initialEol → tok ≠ .endOfFile) :
    HasVerdict label production table tok (·.lhsKeysymTok env tok) := by
  unfold HasVerdict Parser.lhsKeysymTok
  split
  · rename_i name
    by_cases hkeysym : keysymFromName env.tables.toKeysymTables (cString name) = noSymbol
    · exact ⟨.error, h, fun _ => if_pos hkeysym⟩
    by_cases hlen : composeMaxLhsLen < production.lhs.length + 1
    · exact ⟨.skip, h, fun _ => (if_neg hkeysym).trans (if_pos hlen)⟩
    · exact ⟨.goto .lhs { production with lhs := production.lhs ++ [_] }, by simp [Verdict.Fits],
        fun _ => (if_neg hkeysym).trans (if_neg hlen)⟩
  · exact ⟨.error, h, fun _ => rfl⟩

theorem hasVerdict_modifier {name : List UInt8} (h : tok ≠ .endOfLine ∧ tok ≠ .endOfFile) :
    HasVerdict label production table tok (·.modifier name tok) := by
  unfold HasVerdict Parser.modifier
  cases resolveModifier name with
  | none => exact ⟨.error, fun _ => h.2, fun _ => rfl⟩
  | some _ => exact ⟨.goto .lhsModList _, by simpa [Verdict.Fits] using h, fun _ => rfl⟩

theorem hasVerdict_lhsModListTok (h : label = .initialEol → tok ≠ .endOfFile) :
    HasVerdict label production table tok (·.lhsModListTok env tok) := by
  unfold Parser.lhsModListTok
  split
  · exact ⟨.goto .lhsModTilde _, by simp [Verdict.Fits], fun _ => rfl⟩
  · exact hasVerdict_modifier (by simp)
  · exact hasVerdict_lhsKeysymTok h

theorem hasVerdict_lhsTok (env : ComposeEnv) (h : label = .initialEol → tok ≠ .endOfFile) :
    HasVerdict label production table tok (·.lhsTok env tok) := by
  unfold Parser.lhsTok
  split
  · by_cases hlhs : production.lhs = []
    · exact ⟨.skip, h, fun _ => if_pos hlhs⟩
    · exact ⟨.goto .rhs _, by simp [Verdict.Fits], fun _ => if_neg hlhs⟩
  · split_ifs
    · exact ⟨.goto .lhsKeysym _, by simp [Verdict.Fits], fun _ => rfl⟩
    · exact hasVerdict_lhsModListTok h
  · exact hasVerdict_lhsModListTok h
  · exact ⟨.goto .lhsModList _, by simp [Verdict.Fits], fun _ => rfl⟩
  · exact hasVerdict_lhsKeysymTok h

theorem hasVerdict_commit (h : tok ≠ .endOfFile) :
    HasVerdict label production table tok (·.commit tok) := by
  unfold HasVerdict Parser.commit
  by_cases hnone : production.string = none ∧ production.keysym = none
  · exact ⟨.skip, fun _ => h, fun _ => if_pos hnone⟩
  cases hadd : addProduction table production with
  | none => exact ⟨.fail .outOfFuel, fun _ => h, fun _ => by simp [hnone, hadd, Verdict.apply]⟩
  | some table' => exact ⟨.commit table', h, fun _ => by simp [hnone, hadd, Verdict.apply]⟩

theorem hasVerdict_rhsTok : HasVerdict .rhs production table tok (·.rhsTok env tok) := by
  unfold Parser.rhsTok
  split
  · rename_i bytes
    by_cases hstring : production.string.isSome = true
    · exact ⟨.skip, by simp [Verdict.Fits], fun _ => if_pos hstring⟩
    by_cases hlen : composeMaxStringSize < bytes.length + 1
    · exact ⟨.skip, by simp [Verdict.Fits], fun _ => (if_neg hstring).trans (if_pos hlen)⟩
    · exact ⟨.goto .rhs { production with string := some bytes }, by simp [Verdict.Fits],
        fun _ => (if_neg hstring).trans (if_neg hlen)⟩
  · rename_i name
    by_cases hkeysym : keysymFromName env.tables.toKeysymTables (cString name) = noSymbol
    · exact ⟨.error, by simp [Verdict.Fits], fun _ => if_pos hkeysym⟩
    by_cases hsome : production.keysym.isSome = true
    · exact ⟨.skip, by simp [Verdict.Fits], fun _ => (if_neg hkeysym).trans (if_pos hsome)⟩
    -- the production has a keysym now, so that it is complete
    let keysym := keysymFromName env.tables.toKeysymTables (cString name)
    cases hadd : addProduction table { production with keysym := some keysym } with
    | none =>
      exact ⟨.fail .outOfFuel, by simp [Verdict.Fits], fun _ => by
        simp [hkeysym, hsome, Parser.commit, keysym, hadd, Verdict.apply]⟩
    | some table' =>
      exact ⟨.commit table', by simp [Verdict.Fits], fun _ => by
        simp [hkeysym, hsome, Parser.commit, keysym, hadd, Verdict.apply, Parser.initial]⟩
  · exact hasVerdict_commit (by simp)
  · exact ⟨.error, by simp [Verdict.Fits], fun _ => rfl⟩

theorem hasVerdict_parserStep :
    HasVerdict p.label p.production p.table tok (parserStep env inc · tok) := by
  obtain ⟨label, production, n, table⟩ := p
  cases label
  case initialEol =>
    cases tok
    case endOfLine => exact ⟨.stay, ⟨rfl, rfl⟩, fun _ => rfl⟩
    case endOfFile => exact ⟨.finished, ⟨rfl, rfl⟩, fun _ => rfl⟩
    case «include» => exact ⟨.goto .include _, by simp [Verdict.Fits], fun _ => rfl⟩
    all_goals exact hasVerdict_lhsTok env (by simp)
  case «include» =>
    cases tok
    case includeString path =>
      exact ⟨.goto (.includeEol path) _, by simp [Verdict.Fits], fun _ => rfl⟩
    all_goals exact ⟨.error, by simp [Verdict.Fits], fun _ => rfl⟩
  case includeEol path =>
    cases tok
    case endOfLine =>
      unfold HasVerdict parserStep
      dsimp only
      cases inc (cString path) table with
      | ok table' => exact ⟨.commit table', by simp [Verdict.Fits], fun _ => rfl⟩
      | error e => exact ⟨.fail e, by simp [Verdict.Fits], fun _ => rfl⟩
    all_goals exact ⟨.error, by simp [Verdict.Fits], fun _ => rfl⟩
  case lhs => exact hasVerdict_lhsTok env (by simp)
  case lhsKeysym => exact hasVerdict_lhsKeysymTok (by simp)
  case lhsModList => exact hasVerdict_lhsModListTok (by simp)
  case lhsModTilde =>
    cases tok
    case ident name => exact hasVerdict_modifier (by simp)
    all_goals exact ⟨.error, by simp [Verdict.Fits], fun _ => rfl⟩
  case rhs => exact hasVerdict_rhsTok
  case skip => exact ⟨.skip, by simp [Verdict.Fits], fun _ => rfl⟩

/-- **What a step can do**, also with other errors so far. -/
theorem exists_verdict :
    ∃ v : Verdict, v.Fits p.label tok ∧ parserStep env inc p tok = v.apply p tok ∧
      ∀ n, parserStep env inc { p with numErrors := n } tok =
        v.apply { p with numErrors := n } tok := by
  obtain ⟨v, hfits, hv⟩ := hasVerdict_parserStep
  exact ⟨v, hfits, hv p.numErrors, hv⟩

end Verdicts

/-- The token that is read at a label. -/
def ParserLabel.lex (env : ComposeEnv) (s : List UInt8) : ParserLabel → ComposeToken × List UInt8
  | .include => lexIncludeString env s
  | _ => Xkbcommon.lex s

/-- The steps of `parse`, to the end of the file. -/
def parserLoop (env : ComposeEnv) (inc : Include) :
    ℕ → List UInt8 → Parser → Except ParseError ComposeTable
  | 0, _, _ => .error .outOfFuel
  | fuel + 1, s, p =>
    let (tok, rest) := p.label.lex env s
    match parserStep env inc p tok with
    | .next p => parserLoop env inc fuel rest p
    | .finished table => .ok table
    | .error e => .error e

/-- `parse`, from the check of the encoding on. -/
def parseWith (env : ComposeEnv) (inc : Include) (bytes : List UInt8)
    (table : ComposeTable) : Except ParseError ComposeTable :=
  match checkSupportedCharEncoding bytes with
  | none => .error .failed
  | some s => parserLoop env inc (3 * s.length + 3) s { table := table }

/-- `do_include`, with the parser of the included file. -/
def includeFile (env : ComposeEnv)
    (parse : List UInt8 → ComposeTable → Except ParseError ComposeTable) : Include :=
  fun path table =>
    match env.readFile path with
    | none => .error .failed
    | some bytes => parse bytes table

/-- `parse`, in which as many includes may be nested as the first argument says. -/
def parse (env : ComposeEnv) : ℕ → List UInt8 → ComposeTable → Except ParseError ComposeTable
  | 0 => parseWith env fun _ _ => .error .failed
  | left + 1 => parseWith env (includeFile env (parse env left))

/-- `do_include`, in which as many includes may be nested as the first argument says. -/
def doInclude (env : ComposeEnv) : ℕ → Include
  | 0 => fun _ _ => .error .failed
  | left + 1 => includeFile env (parse env left)

theorem parse_eq {env : ComposeEnv} : parse env left = parseWith env (doInclude env left) := by
  cases left <;> rfl

/-- `parse_string`, with a new table. -/
def parseString (env : ComposeEnv) (bytes : List UInt8) : Except ParseError ComposeTable :=
  parse env composeMaxIncludeDepth bytes {}

/-! ### Runs without fuel

A step reads at least one byte, except at the end of the file and for a path that is missing;
these lead to `initial` and `skip`. Hence three steps for each byte are enough. -/

/-- The steps that a label may take at the end of the file. -/
def ParserLabel.weight : ParserLabel → ℕ
  | .initialEol => 1
  | .include => 3
  | _ => 2

section Runs

variable {env : ComposeEnv}

theorem Parser.label_skip : (p.skip tok).label.weight ≤ 2 := by
  cases tok <;> simp [Parser.skip, Parser.initial, ParserLabel.weight]

theorem Parser.eq_of_error (h : p.error tok = .next p') :
    p' = { p with numErrors := p.numErrors + 1 }.skip tok := by
  unfold Parser.error at h
  dsimp only at h
  split at h <;> cases h
  rfl

/-- At the end of the file, a step goes to `initial`. -/
theorem weight_parserStep_endOfFile (h : parserStep env inc p .endOfFile = .next p') :
    p'.label.weight < p.label.weight := by
  obtain ⟨v, hfits, hv, -⟩ := exists_verdict
  rw [hv] at h
  have hinitial (hlabel : p'.label = .initialEol) (hne : p.label ≠ .initialEol) :
      p'.label.weight < p.label.weight := by
    rw [hlabel]
    cases hp : p.label <;> simp_all [ParserLabel.weight]
  cases v with
  | stay => cases hfits.2
  | finished => cases h
  | skip =>
    cases h
    exact hinitial rfl fun hlabel => hfits hlabel rfl
  | error =>
    cases Parser.eq_of_error h
    exact hinitial rfl fun hlabel => hfits hlabel rfl
  | goto _ _ => exact absurd rfl hfits.2.2
  | commit _ => exact absurd rfl hfits
  | fail _ => cases h

/-- After a path is missing, there is no further include. -/
theorem weight_parserStep_include (hlabel : p.label = .include)
    (h : parserStep env inc p tok = .next p') : p'.label.weight < p.label.weight := by
  unfold parserStep at h
  rw [hlabel] at h ⊢
  dsimp only at h
  split at h
  · cases h
    exact Nat.lt_succ_self _
  · cases Parser.eq_of_error h
    exact Parser.label_skip.trans_lt (by decide)

theorem ParserLabel.weight_le (label : ParserLabel) : 1 ≤ label.weight ∧ label.weight ≤ 3 := by
  cases label <;> simp [weight]

theorem ParserLabel.lex_eq (label : ParserLabel) (h : label ≠ .include) :
    label.lex env s = Xkbcommon.lex s := by
  unfold ParserLabel.lex
  split
  · exact absurd rfl h
  · rfl

/-- What a step leaves to do gets less. -/
theorem measure_parserStep (h : parserStep env inc p (p.label.lex env s).1 = .next p') :
    3 * (p.label.lex env s).2.length + p'.label.weight < 3 * s.length + p.label.weight := by
  have hw := p.label.weight_le
  have hw' := p'.label.weight_le
  by_cases hlabel : p.label = .include
  · have hstep := weight_parserStep_include hlabel h
    have hle := length_lexIncludeString env s
    rw [hlabel] at hstep ⊢
    rw [ParserLabel.lex]
    omega
  · rw [p.label.lex_eq hlabel] at h ⊢
    rcases length_lex s with hlt | heof
    · omega
    · rw [heof] at h ⊢
      have hstep := weight_parserStep_endOfFile h
      simp only [length_nil]
      omega

theorem parserLoop_fuel {fuel' : ℕ} (h : 3 * s.length + p.label.weight ≤ fuel)
    (h' : 3 * s.length + p.label.weight ≤ fuel') :
    parserLoop env inc fuel s p = parserLoop env inc fuel' s p := by
  induction fuel generalizing fuel' s p with
  | zero =>
    have := p.label.weight_le
    omega
  | succ fuel ih =>
    have := p.label.weight_le
    obtain ⟨fuel', rfl⟩ : ∃ m, fuel' = m + 1 := ⟨fuel' - 1, by omega⟩
    rw [parserLoop, parserLoop]
    dsimp only
    split
    · rename_i p' hstep
      have := measure_parserStep hstep
      exact ih (by omega) (by omega)
    · rfl
    · rfl

/-- The run of the parser on what is left of the input. -/
def parserRun (env : ComposeEnv) (inc : Include) (s : List UInt8) (p : Parser) :
    Except ParseError ComposeTable :=
  parserLoop env inc (3 * s.length + 3) s p

/-- What an outcome does with the rest of the input. -/
def ParserOutcome.run (env : ComposeEnv) (inc : Include) (rest : List UInt8) :
    ParserOutcome → Except ParseError ComposeTable
  | .next p => parserRun env inc rest p
  | .finished table => .ok table
  | .error e => .error e

/-- **One step of a run.** -/
theorem parserRun_eq :
    parserRun env inc s p =
      (parserStep env inc p (p.label.lex env s).1).run env inc (p.label.lex env s).2 := by
  rw [parserRun, parserLoop]
  dsimp only
  split
  · rename_i p' hstep
    have := measure_parserStep hstep
    have := p.label.weight_le
    have := p'.label.weight_le
    rw [hstep]
    exact parserLoop_fuel (by omega) (by omega)
  all_goals
    rename_i hstep
    rw [hstep]
    rfl

end Runs

/-! ### What is parsed -/

/-- What the parser checks of a production, complete or not. -/
structure Production.Checked (production : Production) : Prop where
  length : production.lhs.length ≤ composeMaxLhsLen
  lhs : ∀ k ∈ production.lhs, k ≠ noSymbol ∧ k ≤ keysymMax
  keysym : ∀ k, production.keysym = some k → k ≠ noSymbol ∧ k ≤ keysymMax
  string : ∀ s, production.string = some s → isValidUtf8 s = true ∧ s.length < composeMaxStringSize

/-- **A table that is built by productions** which the parser has checked. -/
def Built (table : ComposeTable) : Prop :=
  ∃ productions : List Production,
    (∀ production ∈ productions, production.lhs ≠ [] ∧ production.Checked) ∧
    addProductions productions {} = some table

/-- What holds at every step. -/
structure Parser.Sound (p : Parser) : Prop where
  table : Built p.table
  production : p.production.Checked
  lhs : p.label = .rhs → p.production.lhs ≠ []

def ParserOutcome.Sound : ParserOutcome → Prop
  | .next p => p.Sound
  | .finished table => Built table
  | .error e => e = .failed

/-- A result of the parser: it does not run out of fuel. -/
def SoundResult : Except ParseError ComposeTable → Prop
  | .ok table => Built table
  | .error e => e = .failed

theorem Built.add {production : Production} (h : Built table) (hlhs : production.lhs ≠ [])
    (hchecked : production.Checked) :
    ∃ table', addProduction table production = some table' ∧ Built table' := by
  obtain ⟨productions, hall, hadd⟩ := h
  obtain ⟨table₁, t, hadd₁, hstores, -⟩ :=
    stores_addProductions stores_empty fun production h => (hall production h).1
  obtain rfl : table = table₁ := Option.some.inj (hadd.symm.trans hadd₁)
  obtain ⟨k, s, hks⟩ := exists_cons_of_ne_nil hlhs
  obtain ⟨table', hadd', -⟩ := stores_addProduction hstores hks
  refine ⟨table', hadd', productions ++ [production], ?_, ?_⟩
  · intro production' hmem
    rcases mem_append.mp hmem with hmem | hmem
    · exact hall _ hmem
    · rw [mem_singleton.mp hmem]
      exact ⟨hlhs, hchecked⟩
  · unfold addProductions at hadd ⊢
    rw [foldlM_append, hadd]
    refine Option.bind_eq_some_iff.mpr ⟨table, rfl, ?_⟩
    rw [foldlM_cons, hadd']
    rfl

section Sound

variable {env : ComposeEnv} (h : p.Sound) (tok : ComposeToken) {bytes : List UInt8}

theorem Production.checked_nil : Production.Checked { lhs := [] } :=
  ⟨Nat.zero_le _, nofun, nofun, nofun⟩

include h

theorem Parser.Sound.initial : p.initial.Sound := ⟨h.table, checked_nil, nofun⟩

theorem Parser.Sound.skip : (p.skip tok).Sound := by
  unfold Parser.skip
  split
  · exact h.initial
  · exact h.initial
  · exact ⟨h.table, h.production, nofun⟩

theorem Parser.Sound.error : (p.error tok).Sound := by
  have h' : Parser.Sound { p with numErrors := p.numErrors + 1 } := ⟨h.table, h.production, h.lhs⟩
  unfold Parser.error
  dsimp only
  split
  · exact h'.skip tok
  · rfl

theorem Parser.Sound.lhsKeysymTok : (p.lhsKeysymTok env tok).Sound := by
  unfold Parser.lhsKeysymTok
  split
  · rename_i name
    dsimp only
    split_ifs with hsym hlen
    · exact h.error _
    · exact h.skip _
    · refine ⟨h.table, ⟨?_, ?_, h.production.keysym, h.production.string⟩, nofun⟩
      · rw [length_append]
        exact not_lt.mp hlen
      · intro k hk
        rcases mem_append.mp hk with hk | hk
        · exact h.production.lhs k hk
        · rw [mem_singleton.mp hk]
          exact ⟨hsym, keysymFromName_le env.tables⟩
  · exact h.error _

theorem Parser.Sound.modifier (name : List UInt8) : (p.modifier name tok).Sound := by
  unfold Parser.modifier
  split
  · exact h.error _
  · exact ⟨h.table, h.production, nofun⟩

theorem Parser.Sound.lhsModListTok : (p.lhsModListTok env tok).Sound := by
  unfold Parser.lhsModListTok
  split
  · exact ⟨h.table, h.production, nofun⟩
  · exact h.modifier _ _
  · exact h.lhsKeysymTok _

theorem Parser.Sound.lhsTok : (p.lhsTok env tok).Sound := by
  unfold Parser.lhsTok
  split
  · split_ifs with hlhs
    · exact h.skip _
    · exact ⟨h.table, h.production, fun _ => hlhs⟩
  · split_ifs
    · exact ⟨h.table, h.production, nofun⟩
    · exact h.lhsModListTok _
  · exact h.lhsModListTok _
  · exact ⟨h.table, h.production, nofun⟩
  · exact h.lhsKeysymTok _

/-- A production is added to the table. -/
theorem Parser.Sound.commit (hlabel : p.label = .rhs) : (p.commit tok).Sound := by
  obtain ⟨table, hadd, hbuilt⟩ := h.table.add (h.lhs hlabel) h.production
  unfold Parser.commit
  split_ifs
  · exact h.skip _
  · rw [hadd]
    exact ⟨hbuilt, checked_nil, nofun⟩

theorem Parser.Sound.rhsTok (hlabel : p.label = .rhs)
    (htok : ∀ bytes, tok = .string bytes → isValidUtf8 bytes = true) :
    (p.rhsTok env tok).Sound := by
  unfold Parser.rhsTok
  split
  · rename_i bytes
    split_ifs with hsome hlen
    · exact h.skip _
    · exact h.skip _
    · refine ⟨h.table, ⟨h.production.length, h.production.lhs, h.production.keysym, ?_⟩,
        fun _ => h.lhs hlabel⟩
      rintro _ ⟨⟩
      exact ⟨htok bytes rfl, Nat.lt_of_succ_le (not_lt.mp hlen)⟩
  · rename_i name
    dsimp only
    split_ifs with hsym hsome
    · exact h.error _
    · exact h.skip _
    · have hkeysym : Parser.Sound { p with production := { p.production with
          keysym := some (keysymFromName env.tables.toKeysymTables (cString name)) } } := by
        refine ⟨h.table, ⟨h.production.length, h.production.lhs, ?_, h.production.string⟩,
          fun _ => h.lhs hlabel⟩
        rintro _ ⟨⟩
        exact ⟨hsym, keysymFromName_le env.tables⟩
      exact hkeysym.commit _ hlabel
  · exact h.commit _ hlabel
  · exact h.error _

/-- **A step keeps the table and the production sound.** -/
theorem Parser.Sound.parserStep
    (hinclude : ∀ path table, Built table → SoundResult (inc path table))
    (htok : ∀ bytes, tok = .string bytes → isValidUtf8 bytes = true) :
    (parserStep env inc p tok).Sound := by
  unfold Xkbcommon.parserStep
  split
  · split
    · exact h
    · exact h.table
    · exact ⟨h.table, h.production, nofun⟩
    · exact h.lhsTok _
  · split
    · exact ⟨h.table, h.production, nofun⟩
    · exact h.error _
  · rename_i path hlabel
    split
    · have hresult := hinclude (cString path) p.table h.table
      split
      · rename_i table heq
        rw [heq] at hresult
        exact ⟨hresult, checked_nil, nofun⟩
      · rename_i e heq
        rwa [heq] at hresult
    · exact h.error _
  · exact h.lhsTok _
  · exact h.lhsKeysymTok _
  · exact h.lhsModListTok _
  · split
    · exact h.modifier _ _
    · exact h.error _
  · rename_i hlabel
    exact h.rhsTok _ hlabel htok
  · exact h.skip _

omit h

theorem ParserLabel.isValidUtf8_of_lex {label : ParserLabel}
    (h : (label.lex env s).1 = .string bytes) : isValidUtf8 bytes = true := by
  by_cases hlabel : label = .include
  · subst hlabel
    exact absurd h (lexIncludeString_ne_string env)
  · rw [label.lex_eq hlabel] at h
    exact Xkbcommon.isValidUtf8_of_lex h

theorem soundResult_parserLoop (hinclude : ∀ path table, Built table → SoundResult (inc path table))
    (h : p.Sound) (hfuel : 3 * s.length + p.label.weight ≤ fuel) :
    SoundResult (parserLoop env inc fuel s p) := by
  induction fuel generalizing s p with
  | zero =>
    have := p.label.weight_le
    omega
  | succ fuel ih =>
    have hstep : (parserStep env inc p (p.label.lex env s).1).Sound :=
      h.parserStep _ hinclude fun bytes => ParserLabel.isValidUtf8_of_lex
    rw [parserLoop]
    dsimp only
    split
    · rename_i p' heq
      rw [heq] at hstep
      have := measure_parserStep heq
      exact ih hstep (by omega)
    · rename_i heq
      rwa [heq] at hstep
    · rename_i heq
      rwa [heq] at hstep

theorem soundResult_parseWith (hinclude : ∀ path table, Built table → SoundResult (inc path table))
    (h : Built table) : SoundResult (parseWith env inc bytes table) := by
  unfold parseWith
  split
  · rfl
  · exact soundResult_parserLoop hinclude ⟨h, checked_nil, nofun⟩
      (Nat.add_le_add_left (ParserLabel.weight_le _).2 _)

/-- **Parsing ends**, and a table that it returns is built by checked productions. -/
theorem soundResult_parse (bytes : List UInt8) (h : Built table) :
    SoundResult (parse env left bytes table) := by
  induction left generalizing bytes table with
  | zero =>
    refine soundResult_parseWith (fun _ _ _ => ?_) h
    rfl
  | succ left ih =>
    refine soundResult_parseWith (fun path table h => ?_) h
    unfold includeFile
    split
    · rfl
    · exact ih _ h

theorem soundResult_doInclude (path : List UInt8) (h : Built table) :
    SoundResult (doInclude env left path table) := by
  cases left with
  | zero => rfl
  | succ left =>
    rw [doInclude, includeFile]
    split
    · rfl
    · exact soundResult_parse _ h

theorem built_of_parseString (h : parseString env bytes = .ok table) : Built table := by
  have hempty : Built {} := ⟨[], nofun, rfl⟩
  have hresult : SoundResult (parseString env bytes) := soundResult_parse bytes hempty
  rwa [h] at hresult

end Sound

end Xkbcommon
