import Xkbcommon.Compose.Entries

/-!
# The compose state machine

`src/compose/state.c`: a state is a pair of offsets into the nodes of a compose table, the
current and the previous position, from which the status is inferred. The offset 0 is the
dummy leaf; together with the leaves of sequences it means that the next keysym starts at
the root.

The reference is an automaton over a set of sequences, `Xkbcommon.RefState`: it knows the
proper prefix that was entered so far, and the result of a sequence that is complete.
`Xkbcommon.compose_state_matches` says that both show the same, call by call, for every
table and every list of calls.
-/

namespace Xkbcommon

open ComposeTable List

/-! ### The state machine -/

/-- `xkb_keysym_is_modifier`. -/
def keysymIsModifier (keysym : Keysym) : Bool :=
  (decide (0xffe1 ≤ keysym) && decide (keysym ≤ 0xffee)) ||
    (decide (0xfe01 ≤ keysym) && decide (keysym ≤ 0xfe13)) ||
    keysym == 0xff7e || keysym == 0xff7f

/-- `struct xkb_compose_state`, as `xkb_compose_state_new` makes it. -/
structure ComposeState where
  prevContext : ℕ := 0
  context : ℕ := 0
  deriving DecidableEq, Repr, Inhabited

/-- `enum xkb_compose_feed_result`. -/
inductive ComposeFeedResult
  | ignored | accepted
  deriving DecidableEq, Repr, Inhabited

/-- `enum xkb_compose_status`. -/
inductive ComposeStatus
  | nothing | composing | composed | cancelled
  deriving DecidableEq, Repr, Inhabited

/-- The loop of `xkb_compose_state_feed`. -/
def findContext (table : ComposeTable) (keysym : Keysym) : ℕ → ℕ → Option ℕ
  | 0, _ => none
  | fuel + 1, context =>
    if context = 0 then some 0
    else
      let node := table.node context
      if keysym < node.keysym then findContext table keysym fuel node.lokid
      else if node.keysym < keysym then findContext table keysym fuel node.hikid
      else some context

/-- The node where the search of `xkb_compose_state_feed` starts. -/
def nextContext (table : ComposeTable) (state : ComposeState) : ℕ :=
  let node := table.node state.context
  let context := if node.isLeaf then 1 else node.eqkid
  if context = 1 ∧ table.nodes.length = 1 then 0 else context

/-- `xkb_compose_state_feed`; `none` if the loop does not end. -/
def composeStateFeed (table : ComposeTable) (state : ComposeState) (keysym : Keysym) :
    Option (ComposeState × ComposeFeedResult) :=
  if keysymIsModifier keysym then some (state, .ignored)
  else
    (findContext table keysym (table.nodes.length + 1) (nextContext table state)).map fun context =>
      ({ prevContext := state.context, context := context }, .accepted)

/-- `xkb_compose_state_reset`. -/
def composeStateReset (_state : ComposeState) : ComposeState := { prevContext := 0, context := 0 }

/-- `xkb_compose_state_get_status`. -/
def composeStateGetStatus (table : ComposeTable) (state : ComposeState) : ComposeStatus :=
  let prevNode := table.node state.prevContext
  let node := table.node state.context
  if state.context = 0 ∧ prevNode.isLeaf = false then .cancelled
  else if state.context = 0 then .nothing
  else if node.isLeaf = false then .composing
  else .composed

/-- `snprintf(buffer, size, "%s", string)`: what is written before the 0, and the length. -/
def printString (size : ℕ) (string : List UInt8) : List UInt8 × ℕ :=
  (string.take (size - 1), string.length)

/-- `xkb_compose_state_get_utf8`, given `xkb_keysym_to_utf8`, whose result is empty for a keysym
without a string representation. -/
def composeStateGetUtf8 (keysymToUtf8 : Keysym → List UInt8) (table : ComposeTable)
    (state : ComposeState) (size : ℕ) : List UInt8 × ℕ :=
  let node := table.node state.context
  if node.isLeaf = false then ([], 0)
  else if node.utf8 = 0 ∧ node.leafKeysym ≠ noSymbol then
    if keysymToUtf8 node.leafKeysym = [] then ([], 0)
    else printString size (keysymToUtf8 node.leafKeysym)
  else printString size (table.string node.utf8)

/-- `xkb_compose_state_get_one_sym`. -/
def composeStateGetOneSym (table : ComposeTable) (state : ComposeState) : Keysym :=
  let node := table.node state.context
  if node.isLeaf = false then noSymbol else node.leafKeysym

/-! ### The reference automaton -/

/-- The sequences of a map that go on after `q`. -/
def ComposeMap.ProperPrefix (m : ComposeMap) (q : List Keysym) : Prop :=
  ∃ s r, s ≠ [] ∧ m (q ++ s) = some r

/-- **The state of the reference automaton**: the status, the keysyms of a pending sequence, and
the result of a complete one. -/
inductive RefState
  | nothing
  | composing (entered : List Keysym)
  | composed (result : ComposeResult)
  | cancelled

/-- The pending prefix; it is empty unless in the middle of a sequence. -/
def RefState.entered : RefState → List Keysym
  | .composing entered => entered
  | _ => []

open Classical in
/-- **A keysym that is not a modifier** extends the pending prefix to an entry, to a proper prefix
or to neither. -/
noncomputable def RefState.feed (m : ComposeMap) (state : RefState) (keysym : Keysym) : RefState :=
  let q := state.entered ++ [keysym]
  match m q with
  | some result => .composed result
  | none =>
    if m.ProperPrefix q then .composing q
    else if state.entered = [] then .nothing
    else .cancelled

def RefState.status : RefState → ComposeStatus
  | .nothing => .nothing
  | .composing _ => .composing
  | .composed _ => .composed
  | .cancelled => .cancelled

/-- The keysym of a complete sequence. -/
def RefState.oneSym : RefState → Keysym
  | .composed result => result.keysym
  | _ => noSymbol

/-- The string of a complete sequence: without one, that of the keysym. -/
def RefState.utf8 (keysymToUtf8 : Keysym → List UInt8) : RefState → List UInt8
  | .composed ⟨_, some string⟩ => string
  | .composed ⟨keysym, none⟩ => if keysym = noSymbol then [] else keysymToUtf8 keysym
  | _ => []

section Feed

variable {m : ComposeMap} {state : RefState} {keysym : Keysym}

theorem RefState.feed_entry {result : ComposeResult}
    (h : m (state.entered ++ [keysym]) = some result) : state.feed m keysym = .composed result := by
  rw [RefState.feed, h]

theorem RefState.feed_prefix (h : m (state.entered ++ [keysym]) = none)
    (hcmp : m.ProperPrefix (state.entered ++ [keysym])) :
    state.feed m keysym = .composing (state.entered ++ [keysym]) := by
  rw [RefState.feed, h]
  exact if_pos hcmp

theorem RefState.feed_neither (h : m (state.entered ++ [keysym]) = none)
    (hcmp : ¬m.ProperPrefix (state.entered ++ [keysym])) :
    state.feed m keysym = if state.entered = [] then .nothing else .cancelled := by
  rw [RefState.feed, h]
  refine (if_neg hcmp).trans ?_
  congr

end Feed

/-! ### Runs -/

/-- A call that changes the state. -/
inductive ComposeCall
  | feed (keysym : Keysym)
  | reset

/-- What is seen after a call: what a feed returned, the status and the results. -/
structure ComposeView where
  fed : Option ComposeFeedResult
  status : ComposeStatus
  oneSym : Keysym
  utf8 : List UInt8 × ℕ
  deriving DecidableEq, Repr

section Runs

variable (keysymToUtf8 : Keysym → List UInt8) (size : ℕ)

def composeView (table : ComposeTable) (state : ComposeState) (fed : Option ComposeFeedResult) :
    ComposeView :=
  { fed := fed
    status := composeStateGetStatus table state
    oneSym := composeStateGetOneSym table state
    utf8 := composeStateGetUtf8 keysymToUtf8 table state size }

/-- The views after each of the calls; `none` if a call does not return. -/
def composeRun (table : ComposeTable) : List ComposeCall → ComposeState → Option (List ComposeView)
  | [], _ => some []
  | .reset :: calls, state =>
    let state := composeStateReset state
    (composeRun table calls state).map (composeView keysymToUtf8 size table state none :: ·)
  | .feed keysym :: calls, state =>
    (composeStateFeed table state keysym).bind fun (state, fed) =>
      (composeRun table calls state).map (composeView keysymToUtf8 size table state (some fed) :: ·)

def RefState.view (state : RefState) (fed : Option ComposeFeedResult) : ComposeView :=
  { fed := fed
    status := state.status
    oneSym := state.oneSym
    utf8 := printString size (state.utf8 keysymToUtf8) }

/-- The views of the reference automaton. -/
noncomputable def refRun (m : ComposeMap) : List ComposeCall → RefState → List ComposeView
  | [], _ => []
  | .reset :: calls, _ => RefState.nothing.view keysymToUtf8 size none :: refRun m calls .nothing
  | .feed keysym :: calls, state =>
    if keysymIsModifier keysym then
      state.view keysymToUtf8 size (some .ignored) :: refRun m calls state
    else
      (state.feed m keysym).view keysymToUtf8 size (some .accepted) ::
        refRun m calls (state.feed m keysym)

variable {keysymToUtf8 size} {m : ComposeMap} {state : RefState} {v : ComposeView}

/-- **Feeding the rest of an entry** completes it. -/
theorem getLast?_refRun_entry {s : List Keysym} {r : ComposeResult} (hs : s ≠ [])
    (h : m (state.entered ++ s) = some r) (hmod : ∀ k ∈ s, keysymIsModifier k = false)
    (hfree : ∀ q, q <+: s → q ≠ s → m (state.entered ++ q) = none) :
    (refRun keysymToUtf8 size m (s.map .feed) state).getLast? =
      some ((RefState.composed r).view keysymToUtf8 size (some .accepted)) := by
  induction s generalizing state with
  | nil => contradiction
  | cons k s ih =>
    rw [List.map_cons, refRun, if_neg (by simp [hmod k mem_cons_self])]
    by_cases hnil : s = []
    · subst hnil
      rw [RefState.feed_entry h]
      rfl
    · have hnone := hfree [k] ⟨s, rfl⟩ (by simpa using Ne.symm hnil)
      rw [RefState.feed_prefix hnone ⟨s, r, hnil, by simpa using h⟩, getLast?_cons,
        ih hnil (by simpa [RefState.entered] using h) fun k hk => hmod k (mem_cons_of_mem _ hk)]
      · rfl
      · intro q hq hne
        simpa [RefState.entered] using hfree (k :: q) (by simpa using hq) (by simpa using hne)

/-- A reset forgets what was fed before. -/
theorem getLast?_refRun_reset {calls' : List ComposeCall} (calls : List ComposeCall)
    (h : (refRun keysymToUtf8 size m calls' .nothing).getLast? = some v) :
    (refRun keysymToUtf8 size m (calls ++ .reset :: calls') state).getLast? = some v := by
  induction calls generalizing state with
  | nil => rw [nil_append, refRun, getLast?_cons, h, Option.getD_some]
  | cons call calls ih =>
    cases call with
    | reset => rw [cons_append, refRun, getLast?_cons, ih, Option.getD_some]
    | feed k =>
      rw [cons_append, refRun]
      split <;> rw [getLast?_cons, ih, Option.getD_some]

end Runs

/-! ### The invariant -/

/-- The node at an offset, as a search finds it: none, a leaf with a result, or an internal node
with the tree that follows. -/
def FoundAt (table : ComposeTable) (i : ℕ) :
    Option (ComposeResult ⊕ Tst Keysym ComposeResult) → Prop
  | none => i = 0
  | some (.inl r) => i ≠ 0 ∧ (table.node i).isLeaf = true ∧ ∃ c, ResultAt table (table.node i) r c
  | some (.inr eq) =>
    i ≠ 0 ∧ (table.node i).isLeaf = false ∧ ∃ b c, TreeAt table b (table.node i).eqkid eq c

/-- **The search of `xkb_compose_state_feed`.** -/
theorem findContext_spec {table : ComposeTable} {b i : ℕ} {t : Tst Keysym ComposeResult}
    {c : Set Cell} (h : TreeAt table b i t c) (keysym : Keysym) (fuel : ℕ)
    (hfuel : table.nodes.length - b + 1 ≤ fuel) :
    ∃ j, findContext table keysym fuel i = some j ∧ FoundAt table j (t.find keysym) := by
  induction h generalizing fuel with
  | nil =>
    obtain ⟨fuel, rfl⟩ : ∃ m, fuel = m + 1 := ⟨fuel - 1, by omega⟩
    exact ⟨0, rfl, rfl⟩
  | @leaf b i node k lo hi r clo chi cr hb hpos hnode hleaf hk hr hlo hhi _ _ _ ihlo ihhi =>
    obtain ⟨fuel, rfl⟩ : ∃ m, fuel = m + 1 := ⟨fuel - 1, by omega⟩
    have hlt : i < table.nodes.length := (List.getElem?_eq_some_iff.mp hnode).1
    have hnode' := node_eq hnode
    rw [findContext, if_neg (by omega), hnode', Tst.find]
    dsimp only
    rw [hk]
    split
    · exact ihlo fuel (by omega)
    · split
      · exact ihhi fuel (by omega)
      · refine ⟨i, rfl, by omega, ?_, cr, ?_⟩ <;> rwa [hnode']
  | @node b i node k eq lo hi clo chi ceq hb hpos hnode hleaf hk heq hlo hhi _ _ _ _ ihlo ihhi =>
    obtain ⟨fuel, rfl⟩ : ∃ m, fuel = m + 1 := ⟨fuel - 1, by omega⟩
    have hlt : i < table.nodes.length := (List.getElem?_eq_some_iff.mp hnode).1
    have hnode' := node_eq hnode
    rw [findContext, if_neg (by omega), hnode', Tst.find]
    dsimp only
    rw [hk]
    split
    · exact ihlo fuel (by omega)
    · split
      · exact ihhi fuel (by omega)
      · refine ⟨i, rfl, by omega, ?_, i + 1, ceq, ?_⟩ <;> rwa [hnode']

/-- **The state stands for a state of the automaton.** -/
inductive Matches (table : ComposeTable) (t : Tst Keysym ComposeResult) :
    ComposeState → RefState → Prop
  | nothing {prev : ℕ} (hprev : (table.node prev).isLeaf = true) :
    Matches table t ⟨prev, 0⟩ .nothing
  | composing {prev i : ℕ} {q : List Keysym} {eq : Tst Keysym ComposeResult} (hq : q ≠ [])
      (hfound : FoundAt table i (some (.inr eq))) (hordered : eq.Ordered)
      (heq : ∀ s, t.lookup (q ++ s) = eq.lookup s) : Matches table t ⟨prev, i⟩ (.composing q)
  | composed {prev i : ℕ} {r : ComposeResult} (hfound : FoundAt table i (some (.inl r))) :
    Matches table t ⟨prev, i⟩ (.composed r)
  | cancelled {prev : ℕ} (hprev : (table.node prev).isLeaf = false) :
    Matches table t ⟨prev, 0⟩ .cancelled

section Invariant

variable {table : ComposeTable} {t : Tst Keysym ComposeResult} {state : ComposeState}
  {ref : RefState}

theorem Stores.node_zero (h : Stores table t) : table.node 0 = dummyNode :=
  node_eq h.dummy

/-- A prefix is pending unless the context is a leaf. -/
theorem Matches.isLeaf_iff (hstores : Stores table t) (h : Matches table t state ref) :
    (table.node state.context).isLeaf = true ↔ ref.entered = [] := by
  cases h with
  | nothing | cancelled =>
    dsimp only
    rw [hstores.node_zero]
    exact ⟨fun _ => rfl, fun _ => rfl⟩
  | composing hq hfound =>
    dsimp only
    rw [hfound.2.1]
    simpa [RefState.entered] using hq
  | composed hfound => exact ⟨fun _ => rfl, fun _ => hfound.2.1⟩

/-- The tree where the search of the next keysym starts: the sequences that go on after the
pending prefix. -/
theorem Matches.next (hstores : Stores table t) (h : Matches table t state ref) :
    ∃ b c eq, TreeAt table b (nextContext table state) eq c ∧ eq.Ordered ∧
      ∀ s, t.lookup (ref.entered ++ s) = eq.lookup s := by
  obtain ⟨c, htree, -⟩ := hstores.tree
  by_cases hentered : ref.entered = []
  · refine ⟨1, c, t, ?_, hstores.ordered, fun s => by rw [hentered, List.nil_append]⟩
    rw [nextContext, if_pos ((h.isLeaf_iff hstores).mpr hentered)]
    simpa [root] using htree
  · cases h with
    | nothing | cancelled | composed => exact absurd rfl hentered
    | @composing prev i q eq hq hfound hordered heq =>
      obtain ⟨hi, hleaf, b, c, htree'⟩ := hfound
      refine ⟨b, c, _, ?_, hordered, heq⟩
      rw [nextContext, hleaf, if_neg Bool.false_ne_true, if_neg]
      · exact htree'
      · rintro ⟨hone, hlength⟩
        have hne : eq ≠ .nil := mt htree'.offset_eq_zero_iff.mpr fun hzero => by
          rw [hzero] at hone
          omega
        have hlt := htree'.lt_length hne
        rw [hlength] at hlt
        exact absurd (hone ▸ hlt : 1 < 1) (by omega)

/-- **A keysym that is not a modifier** takes both to matching states. -/
theorem Matches.feed (hstores : Stores table t) (h : Matches table t state ref) {keysym : Keysym}
    (hmod : keysymIsModifier keysym = false) :
    ∃ state', composeStateFeed table state keysym = some (state', .accepted) ∧
      Matches table t state' (ref.feed (fun q => t.lookup q) keysym) := by
  obtain ⟨b, c, eq, htree, hordered, heq⟩ := h.next hstores
  obtain ⟨j, hj, hfound⟩ := findContext_spec htree keysym (table.nodes.length + 1) (by omega)
  refine ⟨⟨state.context, j⟩, ?_, ?_⟩
  · rw [composeStateFeed, hmod, if_neg Bool.false_ne_true, hj]
    rfl
  -- what the map says about the extended prefix is what the search found
  have hlookup : ∀ s, t.lookup (ref.entered ++ [keysym] ++ s) = eq.lookup (keysym :: s) :=
      fun s => by
    rw [List.append_assoc, heq]
    rfl
  have hentry : t.lookup (ref.entered ++ [keysym]) = eq.lookup [keysym] := heq _
  rcases hfind : eq.find keysym with _ | r | eq' <;> rw [hfind] at hfound
  · have hnone : ∀ s, eq.lookup (keysym :: s) = none := fun s => by rw [Tst.lookup, hfind]
    rw [RefState.feed_neither (hentry.trans (hnone []))]
    · rw [show j = 0 from hfound]
      split
      · exact .nothing ((h.isLeaf_iff hstores).mpr ‹_›)
      · exact .cancelled (by simpa using mt (h.isLeaf_iff hstores).mp ‹_›)
    · rintro ⟨s, r, -, hs⟩
      cases (hnone s).symm.trans ((hlookup s).symm.trans hs)
  · have hsome : eq.lookup [keysym] = some r := by
      rw [Tst.lookup, hfind]
      rfl
    rw [RefState.feed_entry (hentry.trans hsome)]
    exact .composed hfound
  · obtain ⟨hne, hordered'⟩ := hordered.of_find hfind
    have hrest : ∀ s, eq.lookup (keysym :: s) = eq'.lookup s := fun s => by rw [Tst.lookup, hfind]
    rw [RefState.feed_prefix (hentry.trans (hrest []))]
    · exact .composing (by simp) hfound hordered' fun s => by rw [hlookup, hrest]
    · obtain ⟨s, r, hs⟩ := Tst.exists_lookup hordered' hne
      refine ⟨s, r, ?_, (hlookup s).trans ((hrest s).trans hs)⟩
      rintro rfl
      cases hs

/-- Matching states look the same. -/
theorem Matches.view (hstores : Stores table t) (h : Matches table t state ref)
    (keysymToUtf8 : Keysym → List UInt8) (size : ℕ) (fed : Option ComposeFeedResult) :
    composeView keysymToUtf8 size table state fed = ref.view keysymToUtf8 size fed := by
  have hempty : table.string 0 = [] :=
    StringAt.cString_drop ⟨fun j hj => absurd hj (Nat.not_lt_zero j), hstores.nul, by simp⟩
  cases h with
  | nothing hprev | cancelled hprev =>
    simp [composeView, RefState.view, composeStateGetStatus, composeStateGetOneSym,
      composeStateGetUtf8, hstores.node_zero, dummyNode, hprev, RefState.status, RefState.oneSym,
      RefState.utf8, ComposeNode.leafKeysym, noSymbol, hempty]
  | composing hq hfound =>
    obtain ⟨hi, hleaf, -⟩ := hfound
    simp [composeView, RefState.view, composeStateGetStatus, composeStateGetOneSym,
      composeStateGetUtf8, hleaf, hi, RefState.status, RefState.oneSym, RefState.utf8, printString]
  | @composed prev i r hfound =>
    obtain ⟨hi, hleaf, c, hr⟩ := hfound
    simp only [composeView, RefState.view, composeStateGetStatus, composeStateGetOneSym,
      composeStateGetUtf8, hleaf, hi, RefState.status, false_and, if_false, reduceCtorEq]
    cases hr with
    | noString h =>
      simp only [h, RefState.oneSym, RefState.utf8, true_and]
      by_cases hk : (table.node i).leafKeysym = noSymbol
      · simp [hk, hempty]
      · by_cases hu : keysymToUtf8 (table.node i).leafKeysym = []
        · simp [hk, hu, printString]
        · simp [hk, hu]
    | string h hs =>
      simp only [h, RefState.oneSym, RefState.utf8, false_and, if_false]
      rw [string, hs.cString_drop]

/-- **A run looks like one of the automaton.** -/
theorem Matches.run (hstores : Stores table t) (h : Matches table t state ref)
    (keysymToUtf8 : Keysym → List UInt8) (size : ℕ) (calls : List ComposeCall) :
    composeRun keysymToUtf8 size table calls state =
      some (refRun keysymToUtf8 size (fun q => t.lookup q) calls ref) := by
  induction calls generalizing state ref with
  | nil => rfl
  | cons call calls ih =>
    cases call with
    | reset =>
      have hreset : Matches table t (composeStateReset state) .nothing :=
        .nothing (by rw [hstores.node_zero]; rfl)
      rw [composeRun, refRun, ih hreset, hreset.view hstores]
      rfl
    | feed keysym =>
      rw [composeRun, refRun]
      by_cases hmod : keysymIsModifier keysym = true
      · rw [composeStateFeed, if_pos hmod, if_pos hmod]
        show (composeRun keysymToUtf8 size table calls state).map _ = _
        rw [ih h, h.view hstores]
        rfl
      · obtain ⟨state', hfeed, h'⟩ := h.feed hstores (by simpa using hmod)
        rw [hfeed, if_neg hmod]
        show (composeRun keysymToUtf8 size table calls state').map _ = _
        rw [ih h', h'.view hstores]
        rfl

end Invariant

/-- **The compose state machine matches the set of sequences**: for every list of productions, and
every list of calls from a new state, the status, what each feed returns, the keysym and the
string are those of the reference automaton. -/
theorem compose_state_matches (keysymToUtf8 : Keysym → List UInt8) (size : ℕ)
    (productions : List Production) (hlhs : ∀ production ∈ productions, production.lhs ≠ [])
    (calls : List ComposeCall) :
    ∃ table, addProductions productions {} = some table ∧
      composeRun keysymToUtf8 size table calls {} =
        some (refRun keysymToUtf8 size (builtMap productions {} fun _ => none) calls .nothing) := by
  obtain ⟨table, t, hrun, hstores, hmap⟩ := stores_addProductions stores_empty hlhs
  have hempty : (fun q => (Tst.nil : Tst Keysym ComposeResult).lookup q) = fun _ => none :=
    funext Tst.lookup_nil
  have hstart : Matches table t {} .nothing := .nothing (by rw [hstores.node_zero]; rfl)
  refine ⟨table, hrun, ?_⟩
  rw [hstart.run hstores, ← hmap, hempty]

/-- Two sequences that start with a dead key. -/
def deadKeyProductions : List Production :=
  [⟨[0xfe51, 97], some 0xe1, some [195, 161]⟩, ⟨[0xfe51, 0xfe51], some 0xb4, none⟩]

/-- A sequence with Shift in the middle, one that is cancelled, and a lone keysym. -/
def deadKeyCalls : List ComposeCall :=
  [.feed 0xfe51, .feed 0xffe1, .feed 97, .feed 0xfe51, .feed 98, .feed 98, .reset]

theorem compose_state_matches_dead_keys :
    ∃ table, addProductions deadKeyProductions {} = some table ∧
      composeRun (fun _ => [63]) 8 table deadKeyCalls {} =
        some (refRun (fun _ => [63]) 8 (builtMap deadKeyProductions {} fun _ => none)
          deadKeyCalls .nothing) :=
  compose_state_matches _ _ deadKeyProductions (by decide) deadKeyCalls

example : ((addProductions deadKeyProductions {}).bind fun table =>
    (composeRun (fun _ => [63]) 8 table deadKeyCalls {}).map
      (List.map fun view => (view.fed, view.status, view.oneSym))) =
    some [(some .accepted, .composing, 0), (some .ignored, .composing, 0),
      (some .accepted, .composed, 0xe1), (some .accepted, .composing, 0),
      (some .accepted, .cancelled, 0), (some .accepted, .nothing, 0), (none, .nothing, 0)] := by
  decide

end Xkbcommon
