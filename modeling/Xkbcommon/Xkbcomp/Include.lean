import Xkbcommon.Xkbcomp.Vmod

/-!
# Included files

The sections of a keymap that declare modifiers – types, compatibility map and symbols – include
other files in the same way (`HandleIncludeKeyTypes`, `HandleIncludeCompatMap`,
`HandleIncludeSymbols` and the loops over the statements of a file). The statement
`include "a+b|c"` reads its files one after the other. Each one starts from what was *included* so
far, and its result is merged into it; at the end what was included is merged into the file with the
statement. A file with an error is not merged, its errors are counted. After more than ten of them
a file is abandoned.

A section is given by what it does for its own statements and how it merges
(`Xkbcommon.Xkbcomp.SectionOps`). How deep files include each other is bounded, and this is what the
recursion is on; the files themselves are found by a parameter, `processIncludeFile`.

`Xkbcommon.Xkbcomp.SectionInvariant` is the rule for such runs: a property that the statements and
the merges keep, together with a preorder in which the state only grows. The rule also tells of
every merge that is made: this is why a run lists them.

The result for the sets of modifiers is that *every merge index by index is meaningful*: the
modifiers of the file with the statement are a prefix of those of the included one.
-/

namespace Xkbcommon.Xkbcomp

open List

variable {σ : Type} {file : List Stmt}

/-! ### Runs of a section -/

/-- What the handler of a statement or a merge leaves. The errors are those that it counts
itself. -/
structure StmtResult (σ : Type) where
  status : Status
  info : σ
  errors : ℕ := 0

/-- What a section does: its own statements, and how included files start and are merged. -/
structure SectionOps (σ : Type) where
  /-- The start of `included`, for the file with the statement. -/
  init : σ → σ
  /-- The start of `next_incl`, for an item of the statement, the file with the statement and what
  is included so far. -/
  next : IncludeItem → σ → σ → σ
  /-- A statement other than `include`. -/
  handle : σ → Stmt → StmtResult σ
  /-- The merge of a file without errors. -/
  mergeIncluded : MergeMode → σ → σ → StmtResult σ

/-- The state of a file: its `info`, with the errors counted so far. -/
structure SectionRun (σ : Type) where
  info : σ
  errorCount : ℕ := 0
  /-- The behaviour of the source is undefined. -/
  undefined : Bool := false
  /-- The merges so far, of this file and of those it includes. -/
  merges : List (σ × σ) := []

/-- `INCLUDE_MAX_DEPTH`. -/
def includeMaxDepth : ℕ := 15

namespace SectionOps

variable (ops : SectionOps σ) (processIncludeFile : IncludeItem → Option (List Stmt))

/-- `MergeIncludedKeyTypes` and the like: a file with errors is not merged. -/
def merge (mode : MergeMode) (into source : SectionRun σ) : SectionRun σ :=
  let into := { into with
    undefined := into.undefined || source.undefined
    merges := into.merges ++ source.merges }
  if into.undefined then into
  else if 0 < source.errorCount then
    { into with errorCount := into.errorCount + source.errorCount }
  else
    let result := ops.mergeIncluded mode into.info source.info
    { into with
      info := result.info
      errorCount := into.errorCount + result.errors
      undefined := result.status = .undefined
      merges := into.merges ++ [(into.info, source.info)] }

/-- The loop over the files of an `include` statement, for the file with the statement. It also
tells whether all files were found. -/
def handleIncludedFiles (handleFile : SectionRun σ → List Stmt → SectionRun σ) (info : σ) :
    SectionRun σ → List IncludeItem → SectionRun σ × Bool
  | included, [] => (included, true)
  | included, stmt :: stmts =>
    match processIncludeFile stmt with
    | none => (included, false)
    | some file =>
      let next := handleFile { info := ops.next stmt info included.info } file
      handleIncludedFiles handleFile info (ops.merge stmt.merge included next) stmts

/-- `HandleIncludeKeyTypes` and the like. The mode of the whole statement is that of its first
file. A statement that is rejected is counted as an error by the loop over the statements. -/
def handleInclude (handleFile : SectionRun σ → List Stmt → SectionRun σ) (run : SectionRun σ)
    (item : IncludeItem) (items : List IncludeItem) : SectionRun σ :=
  let (included, found) := ops.handleIncludedFiles processIncludeFile handleFile run.info
    { info := ops.init run.info } (item :: items)
  if found then
    let run := ops.merge item.merge run included
    { run with errorCount := if run.errorCount = 0 then 0 else run.errorCount + 1 }
  else
    { run with
      errorCount := run.errorCount + 10 + 1
      undefined := run.undefined || included.undefined
      merges := run.merges ++ included.merges }

/-- One statement, in the loop over the statements of a file. -/
def handleStmt (handleInclude : SectionRun σ → IncludeItem → List IncludeItem → SectionRun σ)
    (run : SectionRun σ) : Stmt → SectionRun σ
  | .include item items => handleInclude run item items
  | stmt =>
    let result := ops.handle run.info stmt
    { run with
      info := result.info
      errorCount := run.errorCount + result.errors + (if result.status = .rejected then 1 else 0)
      undefined := run.undefined || result.status = .undefined }

/-- The loop over the statements of a file, which is abandoned after more than ten errors. -/
def handleStmts (handleStmt : SectionRun σ → Stmt → SectionRun σ) :
    SectionRun σ → List Stmt → SectionRun σ
  | run, [] => run
  | run, stmt :: stmts =>
    let run := handleStmt run stmt
    if run.undefined || 10 < run.errorCount then run else handleStmts handleStmt run stmts

/-- `HandleKeyTypesFile` and the like, for a file that may include others to a depth
(`ExceedsIncludeMaxDepth`). -/
def handleFile : ℕ → SectionRun σ → List Stmt → SectionRun σ
  | 0 => handleStmts (ops.handleStmt fun run _ _ => { run with errorCount := run.errorCount + 11 })
  | depth + 1 =>
    handleStmts (ops.handleStmt (ops.handleInclude processIncludeFile (handleFile depth)))

/-- The file of a section, from its initial state. -/
def compile (info : σ) (file : List Stmt) : SectionRun σ :=
  ops.handleFile processIncludeFile includeMaxDepth { info } file

end SectionOps

/-- A section compiles. -/
def SectionRun.Compiles {σ : Type} (run : SectionRun σ) : Prop :=
  run.undefined = false ∧ run.errorCount = 0

instance {σ : Type} (run : SectionRun σ) : Decidable run.Compiles :=
  inferInstanceAs (Decidable (_ ∧ _))

/-! ### The rule -/

/-- An invariant of a section, with a preorder in which its state grows: an included file starts
above the one with the statement, and what is merged is above what it is merged into. -/
structure SectionInvariant {σ : Type} (ops : SectionOps σ) where
  inv : σ → Prop
  le : σ → σ → Prop
  refl (info : σ) : le info info
  trans {info info' info'' : σ} : le info info' → le info' info'' → le info info''
  init {info : σ} : inv info → inv (ops.init info) ∧ le info (ops.init info)
  next {info included : σ} (item : IncludeItem) : inv info → inv included →
    inv (ops.next item info included) ∧ le included (ops.next item info included)
  handle {info : σ} (stmt : Stmt) : inv info →
    inv (ops.handle info stmt).info ∧ le info (ops.handle info stmt).info
  merge {into source : σ} (mode : MergeMode) : inv into → inv source → le into source →
    inv (ops.mergeIncluded mode into source).info ∧
      le into (ops.mergeIncluded mode into source).info

namespace SectionInvariant

variable {ops : SectionOps σ} (I : SectionInvariant ops)
  {processIncludeFile : IncludeItem → Option (List Stmt)} {start : σ}
  {run into source : SectionRun σ}

/-- A merge of a state into one below it. -/
def Merges (merge : σ × σ) : Prop := I.inv merge.1 ∧ I.inv merge.2 ∧ I.le merge.1 merge.2

/-- **What holds of a run** that begins in a state: the invariant holds, the state has grown and the
merges were of states one above the other. -/
structure Holds (start : σ) (run : SectionRun σ) : Prop where
  inv : I.inv run.info
  le : I.le start run.info
  merges : ∀ merge ∈ run.merges, I.Merges merge

variable {I} {info start' : σ}

theorem holds_mk (h : I.inv info) (hle : I.le start info) : I.Holds start { info } :=
  ⟨h, hle, fun _ hmem => absurd hmem not_mem_nil⟩

/-- The bookkeeping of a run does not matter. -/
theorem Holds.of_info (h : I.Holds start run) {run' : SectionRun σ} (hinfo : run'.info = run.info)
    (hmerges : ∀ merge ∈ run'.merges, I.Merges merge) : I.Holds start run' :=
  ⟨hinfo ▸ h.inv, hinfo ▸ h.le, hmerges⟩

theorem Holds.merges_append (h : I.Holds start into) (hsource : I.Holds start' source) :
    ∀ merge ∈ into.merges ++ source.merges, I.Merges merge := by
  intro merge hmem
  rcases mem_append.mp hmem with hmem | hmem
  · exact h.merges merge hmem
  · exact hsource.merges merge hmem

theorem Holds.merge (h : I.Holds start into) (hsource : I.Holds start' source)
    (hle : I.le into.info source.info) (mode : MergeMode) :
    I.Holds start (ops.merge mode into source) := by
  have hmerges := h.merges_append hsource
  rw [SectionOps.merge]
  split_ifs
  · exact h.of_info rfl hmerges
  · exact h.of_info rfl hmerges
  · obtain ⟨hinv, hle'⟩ := I.merge mode h.inv hsource.inv hle
    refine ⟨hinv, I.trans h.le hle', ?_⟩
    intro merge hmem
    rcases mem_append.mp hmem with hmem | hmem
    · exact hmerges merge hmem
    · obtain rfl := mem_singleton.mp hmem
      exact ⟨h.inv, hsource.inv, hle⟩

/-- The files of a depth keep what holds. -/
def Keeps (I : SectionInvariant ops) (handleFile : SectionRun σ → List Stmt → SectionRun σ) :
    Prop :=
  ∀ start run file, I.Holds start run → I.Holds start (handleFile run file)

variable {handleFile : SectionRun σ → List Stmt → SectionRun σ}

theorem Keeps.includedFiles (hfile : I.Keeps handleFile) (hinfo : I.inv info)
    {items : List IncludeItem} (h : I.Holds start run) :
    I.Holds start (ops.handleIncludedFiles processIncludeFile handleFile info run items).1 := by
  induction items generalizing run with
  | nil => exact h
  | cons item items ih =>
    rw [SectionOps.handleIncludedFiles]
    rcases processIncludeFile item with - | file
    · exact h
    · -- the file starts above what is included so far, and ends above it
      obtain ⟨hinv, hle⟩ := I.next item hinfo h.inv
      have hnext := hfile run.info _ file (holds_mk hinv hle)
      exact ih (h.merge hnext hnext.le item.merge)

theorem Keeps.include (hfile : I.Keeps handleFile) (item : IncludeItem) (items : List IncludeItem)
    (h : I.Holds start run) :
    I.Holds start (ops.handleInclude processIncludeFile handleFile run item items) := by
  obtain ⟨hinv, hle⟩ := I.init h.inv
  have hincluded : I.Holds run.info (ops.handleIncludedFiles processIncludeFile handleFile run.info
      { info := ops.init run.info } (item :: items)).1 :=
    hfile.includedFiles h.inv (holds_mk hinv hle)
  have hmerged := h.merge hincluded hincluded.le item.merge
  rw [SectionOps.handleInclude]
  dsimp only
  split
  · exact hmerged.of_info rfl hmerged.merges
  · exact h.of_info rfl (h.merges_append hincluded)

/-- **One statement keeps what holds**, if an included file does. -/
theorem holds_handleStmt
    {handleInclude : SectionRun σ → IncludeItem → List IncludeItem → SectionRun σ}
    (hinclude : ∀ run item items, I.Holds start run → I.Holds start (handleInclude run item items))
    (h : I.Holds start run) {stmt : Stmt} :
    I.Holds start (ops.handleStmt handleInclude run stmt) := by
  have hother : I.Holds start
      { run with
        info := (ops.handle run.info stmt).info
        errorCount := run.errorCount + (ops.handle run.info stmt).errors +
          (if (ops.handle run.info stmt).status = .rejected then 1 else 0)
        undefined := run.undefined || (ops.handle run.info stmt).status = .undefined } := by
    obtain ⟨hinv, hle⟩ := I.handle stmt h.inv
    exact ⟨hinv, I.trans h.le hle, h.merges⟩
  unfold SectionOps.handleStmt
  split
  · exact hinclude run _ _ h
  · exact hother

theorem holds_handleStmts {handleStmt : SectionRun σ → Stmt → SectionRun σ}
    (hstmt : ∀ run stmt, I.Holds start run → I.Holds start (handleStmt run stmt))
    (h : I.Holds start run) : I.Holds start (SectionOps.handleStmts handleStmt run file) := by
  induction file generalizing run with
  | nil => exact h
  | cons stmt file ih =>
    rw [SectionOps.handleStmts]
    split
    · exact hstmt run stmt h
    · exact ih (hstmt run stmt h)

/-- **The files of every depth keep what holds**, by induction on the depth. -/
theorem keeps_handleFile (I : SectionInvariant ops) (depth : ℕ) :
    I.Keeps (ops.handleFile processIncludeFile depth) := by
  induction depth with
  | zero =>
    intro start run file h
    refine holds_handleStmts (fun run stmt h => holds_handleStmt ?_ h) h
    exact fun run _ _ h => h.of_info rfl h.merges
  | succ depth ih =>
    intro start run file h
    refine holds_handleStmts (fun run stmt h => holds_handleStmt ?_ h) h
    exact fun run item items h => ih.include item items h

theorem holds_compile (I : SectionInvariant ops) (h : I.inv info) (file : List Stmt) :
    I.Holds info (ops.compile processIncludeFile info file) :=
  I.keeps_handleFile includeMaxDepth info _ file (holds_mk h (I.refl info))

end SectionInvariant

/-! ### Sets of modifiers -/

/-- **A section that declares modifiers.** Included files start without the mappings, the modifiers
are changed by declarations only, and sets are merged by `MergeModSets`. -/
structure ModSection (σ : Type) extends SectionOps σ where
  mods : σ → XkbModSet
  mods_init (info : σ) : mods (init info) = initVMods (mods info) true
  mods_next (item : IncludeItem) (info included : σ) :
    mods (next item info included) = initVMods (mods included) true
  mods_handle (info : σ) (stmt : Stmt) : mods (handle info stmt).info = mods info ∨
    ∃ decl, mods (handle info stmt).info = (handleVModDef (mods info) decl).2
  mods_merge (mode : MergeMode) (into source : σ) :
    mods (mergeIncluded mode into source).info = mergeModSets mode (mods into) (mods source)

section Mods

/-- The sets of modifiers are valid, and they grow. -/
def ModSection.invariant (S : ModSection σ) : SectionInvariant S.toSectionOps where
  inv info := ValidMods (S.mods info)
  le info info' := Extends (S.mods info) (S.mods info')
  refl info := .refl _
  trans h h' := h.trans h'
  init {info} h := by
    rw [S.mods_init]
    exact ⟨h.initVMods true, .of_eq (declared_initVMods _ _)⟩
  next {info included} _ _ h := by
    rw [S.mods_next]
    exact ⟨h.initVMods true, .of_eq (declared_initVMods _ _)⟩
  handle {info} stmt h := by
    rcases S.mods_handle info stmt with heq | ⟨decl, heq⟩
    · rw [heq]
      exact ⟨h, .refl _⟩
    · rw [heq]
      exact handleVModDef_spec h decl
  merge {into source} mode hinto hsource hle := by
    obtain ⟨hvalid, hdeclared⟩ := mergeModSets_spec hinto hsource hle mode
    rw [S.mods_merge]
    exact ⟨hvalid, hle.trans (.of_eq hdeclared)⟩

/-- The modifiers of a keymap while its sections are compiled: those that are built in, and then
what a section leaves. -/
inductive KeymapMods : XkbModSet → Prop
  | builtin : KeymapMods builtinMods
  | compile {σ : Type} (S : ModSection σ) (processIncludeFile : IncludeItem → Option (List Stmt))
    (info : σ) (file : List Stmt) : KeymapMods (S.mods info) →
      KeymapMods (S.mods (S.compile processIncludeFile info file).info)

theorem KeymapMods.valid {mods : XkbModSet} (h : KeymapMods mods) : ValidMods mods := by
  induction h with
  | builtin => exact validMods_builtinMods
  | compile S processIncludeFile info file _ ih => exact (S.invariant.holds_compile ih file).inv

/-- What is said of a merge of two sets: the first one is a prefix of the second one, both are valid
and so is the result, and no assertion fails. -/
structure MergesWell (mode : MergeMode) (into source : XkbModSet) : Prop where
  isPrefix : declared into <+: declared source
  valid_into : ValidMods into
  valid_source : ValidMods source
  valid_merged : ValidMods (mergeModSets mode into source)
  assertions : MergeModSetsAssertions into source

/-- Each time the set of an included file is merged, the modifiers of the file it is merged into
are at the same indices of both, and the set that is left is valid. -/
def ModSection.StaysCompatible (S : ModSection σ)
    (processIncludeFile : IncludeItem → Option (List Stmt)) (info : σ) (file : List Stmt) : Prop :=
  (∀ merge ∈ (S.compile processIncludeFile info file).merges, ∀ mode,
      MergesWell mode (S.mods merge.1) (S.mods merge.2)) ∧
    ValidMods (S.mods (S.compile processIncludeFile info file).info)

theorem ModSection.staysCompatible (S : ModSection σ)
    (processIncludeFile : IncludeItem → Option (List Stmt)) (info : σ) (file : List Stmt)
    (hinfo : KeymapMods (S.mods info)) : S.StaysCompatible processIncludeFile info file := by
  have hholds : S.invariant.Holds info (S.compile processIncludeFile info file) :=
    S.invariant.holds_compile hinfo.valid file
  refine ⟨?_, hholds.inv⟩
  intro merge hmem mode
  obtain ⟨hinto, hsource, hle⟩ := hholds.merges merge hmem
  exact ⟨hle.isPrefix, hinto, hsource, (mergeModSets_spec hinto hsource hle mode).1,
    mergeModSetsAssertions_of_extends hinto hsource hle⟩

end Mods

end Xkbcommon.Xkbcomp
