import Xkbcommon.Rmlvo.Matcher

/-!
# The words of a rules file

A word is a longest run of characters of an identifier. `lex` of `src/xkbcomp/rules.c` compares
the text with its reserved words before it reads an identifier, and does not look at what follows
them; and `matcher_match` takes the identifier `+` for the wild card `<some>`. All other words are
values that a rule can ask for (`Xkbcommon.IsRuleValue`).
-/

namespace Xkbcommon

open List

variable {s : List UInt8} {literal : String} {p : UInt8 → Bool}

/-! ### Reading a word -/

/-- What a word may not start with: these are tokens, or the start of one, or a comment. -/
def operators : List (List UInt8) := ["!", "=", "*", "$", "//"].map ascii

/-- The words that are tokens of their own. -/
def reservedWords : List (List UInt8) := ["<none>", "<some>", "<any>", "include"].map ascii

theorem scannerLit_eq_none_iff : scannerLit literal s = none ↔ ¬ascii literal <+: s := by
  unfold scannerLit
  split <;> simp_all

/-- A word starts with what its text starts with, as far as that is a word. -/
theorem prefix_takeWhile_iff {l : List UInt8} (h : ∀ c ∈ l, p c = true) :
    l <+: s.takeWhile p ↔ l <+: s := by
  constructor
  · intro hl
    exact hl.trans <| takeWhile_prefix p
  · rintro ⟨t, rfl⟩
    rw [takeWhile_append_of_pos h]
    exact prefix_append _ _

/-- A reserved word splits the word that it starts. -/
theorem lexRulesToken_eq_identifier_iff {word : List UInt8} (hword : s.takeWhile isIdent = word)
    (hne : word ≠ []) (hop : ∀ op ∈ operators, ¬op <+: word) :
    lexRulesToken s = (.identifier word, s.dropWhile isIdent) ↔
      ∀ r ∈ reservedWords, ¬r <+: word := by
  subst hword
  have hlit : ∀ literal : String, (∀ c ∈ ascii literal, isIdent c = true) →
      (ascii literal <+: s.takeWhile isIdent ↔ ascii literal <+: s) :=
    fun _ => prefix_takeWhile_iff
  simp only [operators, reservedWords, map_cons, map_nil, forall_mem_cons,
    not_mem_nil, false_implies, implies_true, and_true] at hop ⊢
  rw [hlit "!" (by decide +kernel), hlit "=" (by decide +kernel), hlit "*" (by decide +kernel),
    hlit "$" (by decide +kernel)] at hop
  rw [hlit "<none>" (by decide +kernel), hlit "<some>" (by decide +kernel),
    hlit "<any>" (by decide +kernel), hlit "include" (by decide +kernel),
    ← scannerLit_eq_none_iff, ← scannerLit_eq_none_iff, ← scannerLit_eq_none_iff,
    ← scannerLit_eq_none_iff]
  obtain ⟨hbang, hequals, hstar, hdollar, -⟩ := hop
  unfold lexRulesToken
  split
  · exact absurd ⟨_, rfl⟩ hbang
  · exact absurd ⟨_, rfl⟩ hequals
  · exact absurd ⟨_, rfl⟩ hstar
  split
  · simp_all
  · simp_all
  · simp_all
  rename_i hnone hsome hany
  unfold lexWord
  split
  · exact absurd ⟨_, rfl⟩ hdollar
  split
  · simp_all
  · simp_all

/-! ### Using a word -/

/-- A rule takes the word as a value of its field, be it the first of the rule or a later one. -/
def IsRuleValue (word : List UInt8) : Prop :=
  ∀ names inc m,
    matcherStep names inc .ruleMlvoFirst (.identifier word) m =
        .ok (some .ruleMlvo, matcherRuleSetMlvo (matcherRuleStartNew m) (.normal word)) ∧
      matcherStep names inc .ruleMlvo (.identifier word) m =
        .ok (some .ruleMlvo, matcherRuleSetMlvo m (.normal word))

theorem isRuleValue_iff {word : List UInt8} : IsRuleValue word ↔ word ≠ ascii "+" := by
  have hplus : ascii "+" = [0x2b] := by decide
  rw [hplus]
  constructor
  · rintro h rfl
    -- a rule set that asks for the model: the wild card is not the word
    have hsome := (h (matcherNewFromNames twoLayouts) (fun _ m => .ok m)
      { mapping := { mlvo := [.model] }, marks := [] }).2
    simp [matcherStep, ruleMlvoStep, matcherRuleSetMlvo] at hsome
  · intro h names inc m
    simp [matcherStep, ruleMlvoStep, h]

/-- **A word is read whole and is a value** unless it starts with a reserved word or is `+`, at
every token start of a rules text. -/
theorem lexRules_word_iff {rest word : List UInt8} (htoken : skipRulesBlanks s = .token rest)
    (hword : rest.takeWhile isIdent = word) (hne : word ≠ [])
    (hop : ∀ op ∈ operators, ¬op <+: word) :
    (lexRules s = (.identifier word, rest.dropWhile isIdent) ∧
        rulesTokens s = .identifier word :: rulesTokens (rest.dropWhile isIdent) ∧
        IsRuleValue word) ↔
      (∀ r ∈ reservedWords, ¬r <+: word) ∧ word ≠ ascii "+" := by
  have hlex : lexRules s = lexRulesToken rest := by rw [lexRules, htoken]
  rw [isRuleValue_iff, hlex, ← lexRulesToken_eq_identifier_iff hword hne hop, ← and_assoc]
  refine and_congr_left fun _ => ⟨And.left, fun h => ⟨h, ?_⟩⟩
  rw [rulesTokens_eq, hlex, h]

/-- The word `us` after two spaces. -/
theorem lexRules_word_iff_us :
    (lexRules (ascii "  us") = (.identifier (ascii "us"), (ascii "us").dropWhile isIdent) ∧
        rulesTokens (ascii "  us") =
          .identifier (ascii "us") :: rulesTokens ((ascii "us").dropWhile isIdent) ∧
        IsRuleValue (ascii "us")) ↔
      (∀ r ∈ reservedWords, ¬r <+: ascii "us") ∧ ascii "us" ≠ ascii "+" := by
  have htoken : skipRulesBlanks (ascii "  us") = .token (ascii "us") := by decide
  have hword : (ascii "us").takeWhile isIdent = ascii "us" := by decide
  have hop : ∀ op ∈ operators, ¬op <+: ascii "us" := by decide
  exact lexRules_word_iff htoken hword (by decide) hop

/-- A word that goes on after a reserved word is split, although it is not reserved. -/
theorem lexRules_includes :
    skipRulesBlanks (ascii "includes") = .token (ascii "includes") ∧
      (ascii "includes").takeWhile isIdent = ascii "includes" ∧
      ascii "includes" ∉ reservedWords ∧ (∀ op ∈ operators, ¬op <+: ascii "includes") ∧
      lexRules (ascii "includes") = (.include, ascii "s") := by
  decide +kernel

end Xkbcommon
