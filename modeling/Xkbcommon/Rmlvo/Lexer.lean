import Xkbcommon.Rmlvo.Names

/-!
# The tokens of a rules file

`lex` of `src/xkbcomp/rules.c`. A token does not depend on where the matcher is, so a file is
first read into the list of its tokens, `Xkbcommon.rulesTokens`; the end of the list is the end
of the file, and nothing follows an error, at which the matcher stops.
-/

namespace Xkbcommon

open List

variable {s : List UInt8} {literal : String} {p : UInt8 → Bool} {n k : ℕ}

/-- `enum rules_token`, with the text that goes with the token. -/
inductive RulesToken
  | endOfFile
  | endOfLine
  | identifier (string : List UInt8)
  | groupName (string : List UInt8)
  | bang
  | equals
  | wildCardStar
  | wildCardNone
  | wildCardSome
  | wildCardAny
  | include
  | error
  deriving DecidableEq, Repr

/-- `is_graph`. -/
def isGraph (c : UInt8) : Bool := decide (0x21 ≤ c) && decide (c ≤ 0x7e)

/-- `is_ident`. -/
def isIdent (c : UInt8) : Bool := isGraph c && c != 0x5c

/-- What stands after the white space and the comments. -/
inductive AfterBlanks
  | endOfFile
  | endOfLine (rest : List UInt8)
  | error
  | token (rest : List UInt8)
  deriving DecidableEq, Repr

/-- The end of a comment: the rest of the input starts at the new line, if there is one. -/
def endOfComment : List UInt8 → AfterBlanks
  | [] => .endOfFile
  | s => .endOfLine (s.dropWhile (· == 0x0a))

/-- The start of `lex`: spaces, comments, new lines and escaped new lines. -/
def skipRulesBlanks : List UInt8 → AfterBlanks
  | [] => .endOfFile
  | c :: s =>
    if c = 0x20 ∨ c = 0x09 ∨ c = 0x0d then skipRulesBlanks s
    else if c = 0x2f ∧ s.head? = some 0x2f then endOfComment (s.dropWhile (· != 0x0a))
    else if c = 0x0a then .endOfLine (s.dropWhile (· == 0x0a))
    else if c = 0x5c then
      match s with
      | 0x0a :: s => skipRulesBlanks s
      | 0x0d :: 0x0a :: s => skipRulesBlanks s
      | _ => .error
    else .token (c :: s)

/-- `scanner_lit`: what follows the literal, if the input starts with it. -/
def scannerLit (literal : String) (s : List UInt8) : Option (List UInt8) :=
  if ascii literal <+: s then some (s.drop (ascii literal).length) else none

/-- The part of `lex` that reads a name or a word. -/
def lexWord (s : List UInt8) : RulesToken × List UInt8 :=
  match s with
  | 0x24 :: s =>
    let name := s.takeWhile isIdent
    if name = [] then (.error, s) else (.groupName name, s.dropWhile isIdent)
  | s =>
    match scannerLit "include" s with
    | some s => (.include, s)
    | none =>
      let word := s.takeWhile isIdent
      if word = [] then (.error, s) else (.identifier word, s.dropWhile isIdent)

/-- The part of `lex` that reads a token. -/
def lexRulesToken (s : List UInt8) : RulesToken × List UInt8 :=
  match s with
  | 0x21 :: s => (.bang, s)
  | 0x3d :: s => (.equals, s)
  | 0x2a :: s => (.wildCardStar, s)
  | s =>
    match scannerLit "<none>" s, scannerLit "<some>" s, scannerLit "<any>" s with
    | some s, _, _ => (.wildCardNone, s)
    | _, some s, _ => (.wildCardSome, s)
    | _, _, some s => (.wildCardAny, s)
    | none, none, none => lexWord s

/-- **`lex`**: the next token and the rest of the input. -/
def lexRules (s : List UInt8) : RulesToken × List UInt8 :=
  match skipRulesBlanks s with
  | .endOfFile => (.endOfFile, [])
  | .endOfLine rest => (.endOfLine, rest)
  | .error => (.error, [])
  | .token rest => lexRulesToken rest

/-- The first `fuel` tokens of the input. -/
def rulesTokensFrom : ℕ → List UInt8 → List RulesToken
  | 0, _ => []
  | fuel + 1, s =>
    match lexRules s with
    | (.endOfFile, _) => []
    | (.error, _) => [.error]
    | (tok, rest) => tok :: rulesTokensFrom fuel rest

/-- **The tokens of a rules file**, without the end of the file. -/
def rulesTokens (s : List UInt8) : List RulesToken := rulesTokensFrom (s.length + 1) s

/-! ### Each token is read from some of the input -/

/-- The rest of the input is shorter after a token. -/
def Shorter (s : List UInt8) (r : RulesToken × List UInt8) : Prop :=
  r.1 = .endOfFile ∨ r.1 = .error ∨ r.2.length < s.length

theorem length_dropWhile_le : (s.dropWhile p).length ≤ s.length := (dropWhile_sublist p).length_le

theorem length_scannerLit {rest : List UInt8} (hne : ascii literal ≠ [])
    (h : scannerLit literal s = some rest) : rest.length < s.length := by
  unfold scannerLit at h
  split at h
  · obtain rfl := Option.some.inj h
    rename_i hpre
    have hle := hpre.length_le
    have hpos := length_pos_iff.mpr hne
    rw [length_drop]
    omega
  · cases h

/-- What is left after the words of the class starts later. -/
theorem length_dropWhile_lt (h : s.takeWhile p ≠ []) : (s.dropWhile p).length < s.length := by
  have hlen := congrArg List.length (takeWhile_append_dropWhile (p := p) (l := s))
  rw [length_append] at hlen
  have hpos := length_pos_iff.mpr h
  omega

theorem shorter_lexWord : Shorter s (lexWord s) := by
  unfold lexWord
  split
  · rename_i s
    dsimp only
    split
    · exact .inr (.inl rfl)
    · refine .inr (.inr ?_)
      exact Nat.lt_succ_of_le length_dropWhile_le
  · split
    · rename_i h
      exact .inr (.inr (length_scannerLit (by decide) h))
    · dsimp only
      split
      · exact .inr (.inl rfl)
      · rename_i h
        exact .inr (.inr (length_dropWhile_lt h))

theorem shorter_lexRulesToken : Shorter s (lexRulesToken s) := by
  unfold lexRulesToken
  split
  · exact .inr (.inr (Nat.lt_succ_self _))
  · exact .inr (.inr (Nat.lt_succ_self _))
  · exact .inr (.inr (Nat.lt_succ_self _))
  · split
    · rename_i h
      exact .inr (.inr (length_scannerLit (by decide) h))
    · rename_i h _
      exact .inr (.inr (length_scannerLit (by decide) h))
    · rename_i h _ _
      exact .inr (.inr (length_scannerLit (by decide) h))
    · exact shorter_lexWord

/-- What `Xkbcommon.skipRulesBlanks` leaves. -/
def AfterBlanks.Within (n : ℕ) : AfterBlanks → Prop
  | .endOfFile => True
  | .endOfLine rest => rest.length < n
  | .error => True
  | .token rest => rest.length ≤ n

theorem AfterBlanks.Within.mono (hnk : n ≤ k) {a : AfterBlanks} (h : a.Within n) : a.Within k := by
  cases a with
  | endOfFile => trivial
  | endOfLine rest => exact lt_of_lt_of_le h hnk
  | error => trivial
  | token rest => exact le_trans h hnk

theorem within_endOfComment (h : s.length < n) : (endOfComment s).Within n := by
  cases s with
  | nil => trivial
  | cons c s => exact lt_of_le_of_lt length_dropWhile_le h

theorem within_skipRulesBlanks (s : List UInt8) : (skipRulesBlanks s).Within s.length := by
  induction hn : s.length using Nat.strong_induction_on generalizing s with
  | h n ih =>
    subst hn
    have hrest (t : List UInt8) (ht : t.length < s.length) : (skipRulesBlanks t).Within s.length :=
      (ih t.length ht t rfl).mono (Nat.le_of_lt ht)
    unfold skipRulesBlanks
    split
    · trivial
    · split_ifs
      · exact hrest _ (by simp)
      · exact within_endOfComment (Nat.lt_succ_of_le length_dropWhile_le)
      · exact Nat.lt_succ_of_le length_dropWhile_le
      · split
        · exact hrest _ (by simp only [length_cons]; omega)
        · exact hrest _ (by simp only [length_cons]; omega)
        · trivial
      · exact le_refl _

theorem shorter_lexRules (s : List UInt8) : Shorter s (lexRules s) := by
  have h := within_skipRulesBlanks s
  unfold lexRules
  split
  · exact .inl rfl
  · rename_i hs
    rw [hs] at h
    exact .inr (.inr h)
  · exact .inr (.inl rfl)
  · rename_i rest hs
    rw [hs] at h
    rcases shorter_lexRulesToken with he | he | hlt
    · exact .inl he
    · exact .inr (.inl he)
    · exact .inr (.inr (lt_of_lt_of_le hlt h))

/-- More fuel than the input is long changes nothing. -/
theorem rulesTokensFrom_eq (hn : s.length < n) (hk : s.length < k) :
    rulesTokensFrom n s = rulesTokensFrom k s := by
  induction n generalizing k s with
  | zero => exact absurd hn (Nat.not_lt_zero _)
  | succ n ih =>
    cases k with
    | zero => exact absurd hk (Nat.not_lt_zero _)
    | succ k =>
      have hshort := shorter_lexRules s
      rw [rulesTokensFrom, rulesTokensFrom]
      split
      · rfl
      · rfl
      · rename_i tok rest hfile herr hlex
        rw [hlex] at hshort
        have hlt : rest.length < s.length := by
          rcases hshort with h | h | h
          · exact absurd h (hfile)
          · exact absurd h (herr)
          · exact h
        rw [ih (by omega) (by omega : rest.length < k)]

/-- **The tokens are read one after the other**, to the end of the file or to an error. -/
theorem rulesTokens_eq :
    rulesTokens s = match lexRules s with
      | (.endOfFile, _) => []
      | (.error, _) => [.error]
      | (tok, rest) => tok :: rulesTokens rest := by
  have hshort := shorter_lexRules s
  rw [rulesTokens, rulesTokensFrom]
  split
  · rfl
  · rfl
  · rename_i tok rest hfile herr hlex
    rw [hlex] at hshort
    rcases hshort with h | h | h
    · exact absurd h hfile
    · exact absurd h herr
    · rw [rulesTokens, rulesTokensFrom_eq h (Nat.lt_succ_self _)]

end Xkbcommon
