import Xkbcommon.Rmlvo.Options

/-!
# Two matchers on the same file

Two matchers read the same tokens, with names that differ in the order of their options only.
They go through the same labels and have the same output, while their marks may differ, and so
may whatever is left over from a rule set that is done: `Xkbcommon.Similar` lists what is the same
at which label. Each step keeps it (`Xkbcommon.similar_matcherStep`), so that two runs stop alike
or end with the same components.

The included files need not be the same; what an include does to similar matchers is a hypothesis
here.
-/

namespace Xkbcommon

open Outcome MatcherLabel

variable {names names' : RuleNames} {options : List MatchedSval} {m m' : Matcher}
  {label : MatcherLabel} {inc inc' : IncludeRules} {mp : Mapping} {mlvo : RulesMlvo}
  {val : MlvoMatch}

/-- The same names with other options. -/
def RuleNames.withOptions (names : RuleNames) (options : List MatchedSval) (h : options ≠ []) :
    RuleNames :=
  { names with options := options, options_ne_nil := h }

/-- The label is in a rule set. -/
def MatcherLabel.inRuleSet : MatcherLabel → Bool
  | .mappingMlvo | .mappingKccgst | .ruleMlvoFirst | .ruleMlvo | .ruleKccgst => true
  | _ => false

/-- The label is after the header of a rule set. -/
def MatcherLabel.inRules : MatcherLabel → Bool
  | .ruleMlvoFirst | .ruleMlvo | .ruleKccgst => true
  | _ => false

/-- The label is in a rule. -/
def MatcherLabel.inRule : MatcherLabel → Bool
  | .ruleMlvo | .ruleKccgst => true
  | _ => false

/-- The label is in a header. -/
def MatcherLabel.inHeader : MatcherLabel → Bool
  | .mappingMlvo | .mappingKccgst => true
  | _ => false

/-- **Two matchers that make no difference** at a label. -/
structure Similar (names names' : RuleNames) (label : MatcherLabel) (m m' : Matcher) : Prop where
  groups : m.groups = m'.groups
  kccgst : m.kccgst = m'.kccgst
  marks : MarksFit names.options m.marks
  marks' : MarksFit names'.options m'.marks
  mapping : label.inRuleSet = true → m.mapping = m'.mapping
  header : label.inHeader = true → m.mapping.hasMultipleLayouts = false
  pending : label.inRules = true → m.mapping.hasMultipleLayouts = true → m.pending = m'.pending
  rule : label.inRule = true → m.rule = m'.rule

/-- Two steps lead to the same label and to similar matchers. -/
def StepSimilar (names names' : RuleNames) (r r' : Option MatcherLabel × Matcher) : Prop :=
  r.1 = r'.1 ∧ Similar names names' (r.1.getD .initial) r.2 r'.2

section

variable {label' : MatcherLabel}

/-- Outside the rule sets little has to be the same. -/
theorem Similar.outside (h : Similar names names' label m m') (hout : label'.inRuleSet = false) :
    Similar names names' label' m m' where
  groups := h.groups
  kccgst := h.kccgst
  marks := h.marks
  marks' := h.marks'
  mapping hc := absurd hc (by simp [hout])
  header hc := by cases label' <;> simp_all [inHeader, inRuleSet]
  pending hc := by cases label' <;> simp_all [inRules, inRuleSet]
  rule hc := by cases label' <;> simp_all [inRule, inRuleSet]

/-- A step outside the rule sets. -/
theorem stepSimilar_outside (h : Similar names names' label m m')
    (hout : label'.inRuleSet = false) :
    StepSimilar names names' (some label', m) (some label', m') := ⟨rfl, h.outside hout⟩

/-- A token that is not expected. -/
theorem stepSimilar_none (h : Similar names names' label m m') :
    StepSimilar names names' (none, m) (none, m') := ⟨rfl, h.outside rfl⟩

end

/-- Two arrays that grow alike. -/
theorem rel_ifFits {α β : Type} {R : α → β → Prop} {a : α} {b : β} (fits : Bool) (h : R a b) :
    Rel R (ifFits fits a) (ifFits fits b) := by
  cases fits with
  | false => exact rfl
  | true => exact h

/-! ### Matching and applying a rule -/

section

variable (hne : options ≠ []) (hperm : names.options.Perm options) {groups : List Group}
  {candidates : BitVec 32} {values : List (RulesKccgst × List UInt8)}

include hperm in
theorem similar_matchField :
    Rel (fun r r' => r.matched = r'.matched ∧ r.candidates = r'.candidates)
      (matchField names groups mp mlvo val candidates)
      (matchField (names.withOptions options hne) groups mp mlvo val candidates) := by
  have hrefl : ∀ x : Except Fault FieldMatch,
      Rel (fun r r' => r.matched = r'.matched ∧ r.candidates = r'.candidates) x x := by
    intro x
    cases x with
    | error f => exact rfl
    | ok r => exact ⟨rfl, rfl⟩
  cases mlvo with
  | model | layout | variant => exact hrefl _
  | option =>
    rw [matchField, matchField, matcherRuleMatchOption, matcherRuleMatchOption,
      if_neg names.options_ne_nil, if_neg (names.withOptions options hne).options_ne_nil]
    have hrel := matchOptions_perm groups val hperm (if mp.hasLayout then candidates else 0#32)
    obtain ⟨f, hr, hr'⟩ | ⟨r, r', hr, hr', hmatched, hleft⟩ := hrel.cases
    · rw [RuleNames.withOptions, hr, hr']
      exact rfl
    · rw [RuleNames.withOptions, hr, hr']
      exact ⟨hmatched, by dsimp only; rw [hleft]⟩

include hperm in
theorem similar_matchFields (fields : List (RulesMlvo × MlvoMatch)) (candidates : BitVec 32)
    (marks marks' : List (BitVec 32)) :
    Rel (fun r r' => r.1 = r'.1) (matchFields names groups mp fields candidates marks)
      (matchFields (names.withOptions options hne) groups mp fields candidates marks') := by
  induction fields generalizing candidates marks marks' with
  | nil => exact rfl
  | cons field fields ih =>
    obtain ⟨mlvo, val⟩ := field
    rw [matchFields, matchFields]
    obtain ⟨f, hr, hr'⟩ | ⟨r, r', hr, hr', hmatched, hcandidates⟩ :=
      (similar_matchField hne hperm).cases
    · rw [hr, hr']
      exact rfl
    · rw [hr, hr']
      dsimp only
      rw [← hmatched, ← hcandidates]
      split
      · exact ih _ _ _
      · exact rfl

/-! Values are expanded without the options. -/

theorem expandKccgstValue_withOptions :
    expandKccgstValue (names.withOptions options hne) = expandKccgstValue names := by
  delta expandKccgstValue expandFrom expandLoop
  rfl

theorem appendValues_withOptions (layoutIdx : ℕ) (out : RulesKccgst → List UInt8) :
    appendValues (names.withOptions options hne) layoutIdx values out =
      appendValues names layoutIdx values out := by
  induction values generalizing out with
  | nil => rfl
  | cons v values ih => simp only [appendValues, expandKccgstValue_withOptions, ih]

theorem sliceValues_withOptions (layout : ℕ) :
    sliceValues (names.withOptions options hne) layout values =
      sliceValues names layout values := by
  induction values with
  | nil => rfl
  | cons v values ih => simp only [sliceValues, expandKccgstValue_withOptions, ih]

theorem bufferValues_withOptions (layouts : List ℕ) :
    bufferValues (names.withOptions options hne) values layouts =
      bufferValues names values layouts := by
  induction layouts with
  | nil => rfl
  | cons layout layouts ih => simp only [bufferValues, sliceValues_withOptions, ih]

theorem hasMultipleLayouts_consume :
    (mp.consume candidates).hasMultipleLayouts = mp.hasMultipleLayouts := by
  rw [Mapping.consume]
  split
  · rfl
  · rfl

include hperm in
theorem similar_matcherRuleApplyIfMatches
    (h : Similar names (names.withOptions options hne) .ruleKccgst m m') :
    Rel (Similar names (names.withOptions options hne) .ruleMlvoFirst)
      (matcherRuleApplyIfMatches names m)
      (matcherRuleApplyIfMatches (names.withOptions options hne) m') := by
  rw [matcherRuleApplyIfMatches, matcherRuleApplyIfMatches, ← h.groups, ← h.mapping rfl,
    ← h.rule rfl]
  obtain ⟨f, hr, hr'⟩ | ⟨⟨candidates, marks⟩, ⟨_, marks'⟩, hr, hr', rfl⟩ :=
    (similar_matchFields hne hperm (m.mapping.mlvo.zip m.rule.mlvoValues)
      m.mapping.active m.marks m'.marks).cases
  · rw [hr, hr']
    exact rfl
  have hmarks := marksFit_of_matchFields h.marks hr
  have hmarks' := marksFit_of_matchFields h.marks' hr'
  rw [hr, hr']
  cases candidates with
  | none =>
    exact ⟨rfl, h.kccgst, hmarks, hmarks', fun _ => rfl, nofun, fun _ => h.pending rfl, nofun⟩
  | some candidates =>
    dsimp only
    rw [bufferValues_withOptions, appendValues_withOptions, ← h.kccgst]
    split
    · rename_i hmul
      have hpending := h.pending rfl hmul
      cases bufferValues names (m.mapping.kccgst.zip m.rule.kccgstValues)
          (m.mapping.selected candidates) with
      | error f => exact rfl
      | ok slices =>
        change Rel _ (ifFits (pendingFits (m.pending ++ slices)) _)
          (ifFits (pendingFits (m'.pending ++ slices)) _)
        rw [← hpending]
        exact rel_ifFits _
          ⟨rfl, rfl, hmarks, hmarks', fun _ => rfl, nofun, fun _ _ => rfl, nofun⟩
    · rename_i hmul
      cases appendValues names m.mapping.layoutIdxMin (m.mapping.kccgst.zip m.rule.kccgstValues)
          m.kccgst with
      | error f => exact rfl
      | ok out =>
        refine rel_ifFits _
          ⟨rfl, rfl, hmarks, hmarks', fun _ => rfl, nofun, fun _ hc => absurd ?_ hmul, nofun⟩
        rwa [hasMultipleLayouts_consume] at hc

/-- The end of a header. -/
theorem similar_endOfHeader
    (h : Similar names (names.withOptions options hne) .mappingKccgst m m') :
    Rel (Similar names (names.withOptions options hne) .ruleMlvoFirst) (endOfHeader names m)
      (endOfHeader (names.withOptions options hne) m') := by
  have hsingle := h.header rfl
  have hverify : matcherMappingVerify (names.withOptions options hne) =
    matcherMappingVerify names := rfl
  have hbounds : matcherMappingSetLayoutBounds (names.withOptions options hne) =
    matcherMappingSetLayoutBounds names := rfl
  rw [endOfHeader, endOfHeader, hverify, hbounds, ← h.mapping rfl]
  split
  · exact ⟨h.groups, h.kccgst, h.marks, h.marks', fun _ => h.mapping rfl,
      nofun, fun _ hc => absurd hc (by simp [hsingle]), nofun⟩
  · cases matcherMappingVerify names m.mapping with
    | error f => exact rfl
    | ok ok =>
      cases ok with
      | false =>
        exact ⟨h.groups, h.kccgst, h.marks, h.marks', fun _ => rfl,
          nofun, fun _ hc => absurd hc (by simp [Mapping.deactivate, hsingle]), nofun⟩
      | true =>
        change Rel _ (matcherMappingSetLayoutBounds names m.mapping >>= _)
          (matcherMappingSetLayoutBounds names m.mapping >>= _)
        cases matcherMappingSetLayoutBounds names m.mapping with
        | error f => exact rfl
        | ok mp =>
          refine ⟨h.groups, h.kccgst, h.marks, h.marks', fun _ => rfl, nofun, fun _ hc => ?_, nofun⟩
          dsimp only at hc ⊢
          rw [if_pos hc, if_pos hc]

include hperm in
theorem similar_endOfRule (h : Similar names (names.withOptions options hne) .ruleKccgst m m') :
    Rel (Similar names (names.withOptions options hne) .ruleMlvoFirst) (endOfRule names m)
      (endOfRule (names.withOptions options hne) m') := by
  have hskip : ruleIsSkipped m' = ruleIsSkipped m := by
    rw [ruleIsSkipped, ruleIsSkipped, h.mapping rfl, h.rule rfl]
  rw [endOfRule, endOfRule, hskip]
  split
  · exact ⟨h.groups, h.kccgst, h.marks, h.marks', fun _ => h.mapping rfl,
      nofun, fun _ => h.pending rfl, nofun⟩
  · exact similar_matcherRuleApplyIfMatches hne hperm h

end

/-! ### The machine -/

section

theorem similar_ruleStart (h : Similar names names' .ruleMlvoFirst m m') :
    Similar names names' .ruleMlvo (matcherRuleStartNew m) (matcherRuleStartNew m') where
  groups := h.groups
  kccgst := h.kccgst
  marks := h.marks
  marks' := h.marks'
  mapping _ := h.mapping rfl
  header := nofun
  pending _ := h.pending rfl
  rule _ := by rw [matcherRuleStartNew, matcherRuleStartNew, h.mapping rfl]

theorem similar_matcherRuleSetMlvo (h : Similar names names' .ruleMlvo m m') :
    Similar names names' .ruleMlvo (matcherRuleSetMlvo m val) (matcherRuleSetMlvo m' val) := by
  rw [matcherRuleSetMlvo, matcherRuleSetMlvo, ← h.mapping rfl, ← h.rule rfl]
  split
  · exact h
  split
  · exact { h with mapping := fun _ => rfl, rule := fun _ => rfl }
  · exact { h with mapping := fun _ => rfl, rule := fun _ => rfl }

theorem similar_matcherRuleSetKccgst (h : Similar names names' .ruleKccgst m m')
    (value : List UInt8) :
    Similar names names' .ruleKccgst (matcherRuleSetKccgst m value)
      (matcherRuleSetKccgst m' value) := by
  rw [matcherRuleSetKccgst, matcherRuleSetKccgst, ← h.mapping rfl, ← h.rule rfl]
  split
  · exact h
  split
  · exact { h with mapping := fun _ => rfl, rule := fun _ => rfl }
  · exact { h with mapping := fun _ => rfl, rule := fun _ => rfl }

theorem similar_ruleMlvoStep (h : Similar names names' .ruleMlvo m m') {tok : RulesToken} :
    StepSimilar names names' (ruleMlvoStep tok m) (ruleMlvoStep tok m') := by
  have hset : ∀ val, StepSimilar names names' (some .ruleMlvo, matcherRuleSetMlvo m val)
      (some .ruleMlvo, matcherRuleSetMlvo m' val) := fun val =>
    ⟨rfl, similar_matcherRuleSetMlvo h⟩
  cases tok with
  | identifier | groupName | wildCardStar | wildCardNone | wildCardSome | wildCardAny =>
    exact hset _
  | equals =>
    exact ⟨rfl, h.groups, h.kccgst, h.marks, h.marks', h.mapping, h.header, h.pending, h.rule⟩
  | endOfFile | endOfLine | bang | «include» | error => exact stepSimilar_none h

/-- The end of a rule set. -/
theorem similar_matcherAppendPendingKccgst (h : Similar names names' .ruleMlvoFirst m m') :
    Rel (Similar names names' .initial) (matcherAppendPendingKccgst m)
      (matcherAppendPendingKccgst m') := by
  have hmapping := h.mapping rfl
  rw [matcherAppendPendingKccgst, matcherAppendPendingKccgst, ← hmapping]
  split
  · exact h.outside rfl
  · rename_i hmul
    have hmerged : mergePending m = mergePending m' := by
      rw [mergePending, mergePending, h.pending rfl (by simpa using hmul), h.kccgst, hmapping]
    rw [hmerged]
    exact rel_ifFits _
      { groups := h.groups
        kccgst := rfl
        marks := h.marks
        marks' := h.marks'
        mapping := nofun
        header := nofun
        pending := nofun
        rule := nofun }

theorem hasMultipleLayouts_addMlvo :
    (mp.addMlvo mlvo).hasMultipleLayouts = mp.hasMultipleLayouts := by
  rw [Mapping.addMlvo]
  split
  · rfl
  · rfl

theorem hasMultipleLayouts_setMlvo (mp : Mapping) (ident : List UInt8) :
    (matcherMappingSetMlvo mp ident).hasMultipleLayouts = mp.hasMultipleLayouts := by
  rw [matcherMappingSetMlvo]
  (repeat' split) <;> first | rfl | exact hasMultipleLayouts_addMlvo

theorem hasMultipleLayouts_setKccgst (mp : Mapping) (ident : List UInt8) :
    (matcherMappingSetKccgst mp ident).hasMultipleLayouts = mp.hasMultipleLayouts := by
  rw [matcherMappingSetKccgst]
  split
  · rfl
  split
  · rfl
  · rfl

/-- A word of a header. -/
theorem similar_headerWord {set : Mapping → List UInt8 → Mapping}
    (hset : ∀ mp ident, (set mp ident).hasMultipleLayouts = mp.hasMultipleLayouts)
    (hlabel : label.inHeader = true) (h : Similar names names' label m m') {ident : List UInt8} :
    Similar names names' label (headerWord set m ident) (headerWord set m' ident) := by
  have hin : label.inRuleSet = true ∧ label.inRules = false ∧ label.inRule = false := by
    cases label <;> simp_all [inHeader, inRuleSet, inRules, inRule]
  rw [headerWord, headerWord, ← h.mapping hin.1]
  split
  · exact h
  · exact
      { groups := h.groups
        kccgst := h.kccgst
        marks := h.marks
        marks' := h.marks'
        mapping := fun _ => rfl
        header := fun _ => (hset _ _).trans (h.header hlabel)
        pending := by simp [hin.2.1]
        rule := by simp [hin.2.2] }

end

/-- **A step keeps two matchers similar.** -/
theorem similar_matcherStep (hne : options ≠ []) (hperm : names.options.Perm options)
    (tok : RulesToken)
    (hinc : ∀ s, Rel (Similar names (names.withOptions options hne) .initial) (inc s m) (inc' s m'))
    (h : Similar names (names.withOptions options hne) label m m') :
    Rel (StepSimilar names (names.withOptions options hne)) (matcherStep names inc label tok m)
      (matcherStep (names.withOptions options hne) inc' label tok m') := by
  unfold matcherStep
  split
  case h_1 | h_2 | h_4 | h_6 | h_8 | h_10 => exact stepSimilar_outside h rfl
  case h_3 s =>
    rw [← h.groups]
    refine rel_ifFits _ ⟨rfl, ?_⟩
    have hout : Similar names (names.withOptions options hne) .groupName m m' := h.outside rfl
    exact { hout with groups := rfl }
  case h_5 s =>
    refine ⟨rfl, ?_⟩
    exact
      { groups := h.groups
        kccgst := h.kccgst
        marks := h.marks
        marks' := h.marks'
        mapping := fun _ => rfl
        header := fun _ => hasMultipleLayouts_setMlvo _ _
        pending := nofun
        rule := nofun }
  case h_7 s =>
    rw [← h.groups]
    exact rel_ifFits _ ⟨rfl, { h with groups := rfl }⟩
  case h_9 s =>
    refine Rel.map (fun _ _ hm => ?_) (hinc s)
    exact stepSimilar_outside hm rfl
  case h_11 s => exact ⟨rfl, similar_headerWord hasMultipleLayouts_setMlvo rfl h⟩
  case h_12 =>
    exact ⟨rfl, h.groups, h.kccgst, h.marks, h.marks', h.mapping, h.header, h.pending, h.rule⟩
  case h_13 s => exact ⟨rfl, similar_headerWord hasMultipleLayouts_setKccgst rfl h⟩
  case h_14 => exact (similar_endOfHeader hne h).map fun _ _ hm => ⟨rfl, hm⟩
  case h_15 =>
    exact (similar_matcherAppendPendingKccgst h).map fun _ _ hm => stepSimilar_outside hm rfl
  case h_16 => exact ⟨rfl, h⟩
  case h_17 => exact similar_ruleMlvoStep (similar_ruleStart h)
  case h_18 => exact similar_ruleMlvoStep h
  case h_19 s => exact ⟨rfl, similar_matcherRuleSetKccgst h s⟩
  case h_20 => exact (similar_endOfRule hne hperm h).map fun _ _ hm => ⟨rfl, hm⟩
  case h_21 => exact stepSimilar_none h

/-! ### Runs and files -/

/-- Two includes keep matchers similar. -/
def IncludeSimilar (names names' : RuleNames) (inc inc' : IncludeRules) : Prop :=
  ∀ s m m', Similar names names' .initial m m' →
    Rel (Similar names names' .initial) (inc s m) (inc' s m')

/-- Two runs end with the same success and with similar matchers. -/
def EndSimilar (names names' : RuleNames) (r r' : Bool × Matcher) : Prop :=
  r.1 = r'.1 ∧ Similar names names' .initial r.2 r'.2

theorem similar_matcherEnd (h : Similar names names' label m m') :
    Rel (EndSimilar names names') (matcherEnd label m) (matcherEnd label m') := by
  cases label with
  | ruleMlvoFirst => exact (similar_matcherAppendPendingKccgst h).map fun _ _ hm => ⟨rfl, hm⟩
  | _ => exact ⟨rfl, h.outside rfl⟩

/-- **A run keeps two matchers similar.** -/
theorem similar_matcherMatch (hne : options ≠ []) (hperm : names.options.Perm options)
    (hinc : IncludeSimilar names (names.withOptions options hne) inc inc') (toks : List RulesToken)
    (h : Similar names (names.withOptions options hne) label m m') :
    Rel (EndSimilar names (names.withOptions options hne)) (matcherMatch names inc toks label m)
      (matcherMatch (names.withOptions options hne) inc' toks label m') := by
  induction toks generalizing label m m' with
  | nil => exact similar_matcherEnd h
  | cons tok toks ih =>
    have hstep := similar_matcherStep hne hperm tok (fun s => hinc s m m' (h.outside rfl)) h
    rw [matcherMatch, matcherMatch]
    obtain ⟨f, hr, hr'⟩ | ⟨⟨next, m₁⟩, ⟨_, m₁'⟩, hr, hr', rfl, hm⟩ := hstep.cases
    · rw [hr, hr']
      exact rfl
    · rw [hr, hr']
      cases next with
      | none => exact ⟨rfl, hm⟩
      | some label' => exact ih hm

/-- Two ways to read two files keep matchers similar. -/
def ReadSimilar (names names' : RuleNames)
    (read read' : Option (List UInt8) → Matcher → Except Fault (Bool × Matcher))
    (file file' : Option (List UInt8)) : Prop :=
  ∀ m m', Similar names names' .initial m m' →
    Rel (EndSimilar names names') (read file m) (read' file' m')

/-- The text of the groups of a file is gone in both. -/
theorem EndSimilar.unmapGroups {r r' : Bool × Matcher} (h : EndSimilar names names' r r') (n : ℕ) :
    EndSimilar names names' (r.1, { r.2 with groups := Xkbcommon.unmapGroups n r.2.groups })
      (r'.1, { r'.2 with groups := Xkbcommon.unmapGroups n r'.2.groups }) :=
  ⟨h.1, { h.2 with groups := congrArg (Xkbcommon.unmapGroups n) h.2.groups }⟩

theorem similar_readRulesFile (hne : options ≠ []) (hperm : names.options.Perm options)
    (hinc : IncludeSimilar names (names.withOptions options hne) inc inc')
    (file : Option (List UInt8)) :
    ReadSimilar names (names.withOptions options hne) (readRulesFile names inc)
      (readRulesFile (names.withOptions options hne) inc') file file := by
  intro m m' h
  rw [readRulesFile, readRulesFile, ← h.groups]
  split
  · exact ⟨rfl, h⟩
  · exact (similar_matcherMatch hne hperm hinc _ h).map fun r r' hr => hr.unmapGroups _

theorem similar_readUntil (stop : Bool)
    {read read' : Option (List UInt8) → Matcher → Except Fault (Bool × Matcher)}
    {files files' : List (Option (List UInt8))}
    (hread : List.Forall₂ (ReadSimilar names names' read read') files files')
    (h : Similar names names' .initial m m') :
    Rel (EndSimilar names names') (readUntil stop read files m)
      (readUntil stop read' files' m') := by
  induction hread generalizing m m' with
  | nil => exact ⟨rfl, h⟩
  | @cons file file' files files' hfile _ ih =>
    rw [readUntil, readUntil]
    obtain ⟨f, hr, hr'⟩ | ⟨⟨ok, m₁⟩, ⟨_, m₁'⟩, hr, hr', rfl, hm⟩ := (hfile m m' h).cases
    · rw [hr, hr']
      exact rfl
    · rw [hr, hr']
      dsimp only
      split
      · exact ⟨rfl, hm⟩
      · exact ih hm

/-- **Two sets of rules files that make no difference**, file by file. -/
structure EnvSimilar (S : Option (List UInt8) → Option (List UInt8) → Prop)
    (env env' : RulesEnv) : Prop where
  includeFiles : ∀ s, List.Forall₂ S (env.includeFiles s) (env'.includeFiles s)
  rulesFile : ∀ rules, Option.Rel S (env.rulesFile rules) (env'.rulesFile rules)
  partialFiles : ∀ name, List.Forall₂ S (env.partialFiles name) (env'.partialFiles name)

section

variable {S : Option (List UInt8) → Option (List UInt8) → Prop} {env env' : RulesEnv}
  (hread : ∀ inc inc', IncludeSimilar names names' inc inc' → ∀ file file', S file file' →
    ReadSimilar names names' (readRulesFile names inc) (readRulesFile names' inc') file file')
  (henv : EnvSimilar S env env')

include hread henv in
/-- Includes, by induction on the depth that is left. -/
theorem similar_matcherInclude (depth : ℕ) :
    IncludeSimilar names names' (matcherInclude names env depth)
      (matcherInclude names' env' depth) := by
  induction depth with
  | zero => exact fun s m m' h => h
  | succ depth ih =>
    intro s m m' h
    have hfiles := (henv.includeFiles s).imp (hread _ _ ih)
    exact (similar_readUntil true hfiles h).map fun r r' hr => hr.2

include henv in
theorem forall₂_rulesFiles (hnone : S none none) (rules : List UInt8) :
    Option.Rel (List.Forall₂ S) (rulesFiles env rules) (rulesFiles env' rules) := by
  have hpieces : ∀ name,
      List.Forall₂ S (partialRulesFiles env name) (partialRulesFiles env' name) := by
    intro name
    rw [partialRulesFiles, partialRulesFiles]
    split
    · exact henv.partialFiles name
    · exact .cons hnone .nil
  have hmain := henv.rulesFile rules
  rw [rulesFiles, rulesFiles]
  generalize env.rulesFile rules = file, env'.rulesFile rules = file' at hmain
  cases hmain with
  | none => exact .none
  | some hfile =>
    exact .some (List.rel_append (List.rel_append (hpieces _) (.cons hfile .nil)) (hpieces _))

include hread henv in
/-- **The same components are found**, or none, or the process stops alike. -/
theorem similar_xkbResolveRules (hnone : S none none) {rules : List UInt8} :
    xkbResolveRules env rules names = xkbResolveRules env' rules names' := by
  have hfiles := forall₂_rulesFiles henv hnone rules
  rw [xkbResolveRules, xkbResolveRules]
  split
  · rfl
  generalize rulesFiles env rules = files, rulesFiles env' rules = files' at hfiles
  cases hfiles with
  | none => rfl
  | some hfiles =>
    have hinc := similar_matcherInclude hread henv maxIncludeDepth
    rw [readMainFile, readMainFile]
    dsimp only
    have hnew : Similar names names' .initial (newMatcher names) (newMatcher names') :=
      ⟨rfl, rfl, marksFit_zero, marksFit_zero, nofun, nofun, nofun, nofun⟩
    obtain ⟨f, hr, hr'⟩ | ⟨⟨ok, m⟩, ⟨_, m'⟩, hr, hr', rfl, hm⟩ :=
      (similar_readUntil false (hfiles.imp (hread _ _ hinc)) hnew).cases
    · rw [hr, hr']
    · rw [hr, hr']
      cases ok with
      | false => rfl
      | true =>
        dsimp only
        rw [componentsOf, componentsOf, hm.kccgst, if_pos (marksOk_of_marksFit hm.marks),
          if_pos (marksOk_of_marksFit hm.marks')]

end

end Xkbcommon
