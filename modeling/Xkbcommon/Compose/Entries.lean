import Mathlib.Data.Finset.Card
import Xkbcommon.Compose.Tree

/-!
# The entries of a compose table

What a list of productions means: a partial map from sequences of keysyms to results, in
which a sequence removes its prefixes and its extensions (`Xkbcommon.ComposeMap.add`). The
main result, `Xkbcommon.compose_table_entries`, says that the table built by
`add_production` holds this map, and that the iterator lists it in lexicographic order.

The iterator walks the tree in order with a stack of pending nodes. Its invariant,
`Xkbcommon.PendingEntries`, reads off the stack the entries that are still to come: a node that is
not processed stands for itself, what follows it and what is to its right; a processed one
stands only for what is to its right, and its keysym is the last of the current sequence.
-/

namespace Xkbcommon

open List ComposeTable Tst

variable {t : Tst Keysym ComposeResult} {table : ComposeTable} {productions : List Production}

/-! ### Productions as a map -/

/-- A partial map from sequences to results. -/
abbrev ComposeMap := List Keysym → Option ComposeResult

/-- **The map after a production**: nothing changes if the entry is there already; otherwise the
proper prefixes and extensions of the sequence are removed, and it is bound to the result. -/
def ComposeMap.add (m : ComposeMap) (production : Production) : ComposeMap :=
  if m production.lhs = some production.result then m
  else fun q =>
    if q = production.lhs then some production.result
    else if q <+: production.lhs ∨ production.lhs <+: q then none
    else m q

/-- The map of a list of productions. -/
def composeMap (productions : List Production) : ComposeMap :=
  productions.foldl ComposeMap.add fun _ => none

/-- No sequence of a tree is a prefix of another, so that a duplicate changes nothing. -/
theorem add_lookup {production : Production} {k : Keysym} {s : List Keysym}
    (hlhs : production.lhs = k :: s) :
    ComposeMap.add (fun q => t.lookup q) production =
      fun q => (t.insert production.result k s).lookup q := by
  funext q
  rw [lookup_insert, ← hlhs]
  unfold ComposeMap.add
  split
  · rename_i hdup
    split
    · rename_i hq
      rw [hq, hdup]
    · split
      · rename_i hne hcmp
        exact lookup_eq_none_of_prefix hdup hne hcmp
      · rfl
  · rfl

/-! ### The iterator -/

/-- An entry as the iterator shows it: without a string, `utf8` is empty. -/
def entryOf (e : List Keysym × ComposeResult) : ComposeTableEntry :=
  { sequence := e.1, keysym := e.2.keysym, utf8 := e.2.string.getD [] }

/-- The entries of a tree, after a common prefix. -/
def entriesAfter (p : List Keysym) (t : Tst Keysym ComposeResult) :
    List (List Keysym × ComposeResult) :=
  t.entries.map fun e => (p ++ e.1, e.2)

/-- The entries of a tree without those to the left of its root. -/
def rightEntries (p : List Keysym) : Tst Keysym ComposeResult → List (List Keysym × ComposeResult)
  | .nil => []
  | .leaf k r _ hi => (p ++ [k], r) :: entriesAfter p hi
  | .node k eq _ hi => entriesAfter (p ++ [k]) eq ++ entriesAfter p hi

/-- **The entries to come**, for the current sequence and the stack of pending nodes. -/
inductive PendingEntries (table : ComposeTable) :
    List Keysym → List PendingNode → List (List Keysym × ComposeResult) → Prop
  | nil : PendingEntries table [] [] []
  | unprocessed {p : List Keysym} {rest : List PendingNode}
      {es : List (List Keysym × ComposeResult)} {i : ℕ} {t : Tst Keysym ComposeResult}
      {c : Set Cell} (hrest : PendingEntries table p rest es) (htree : TreeAt table i i t c)
      (hne : t ≠ .nil) (ht : t.Ordered) :
      PendingEntries table p ({ offset := i, processed := false } :: rest) (rightEntries p t ++ es)
  | processed {p : List Keysym} {rest : List PendingNode}
      {es : List (List Keysym × ComposeResult)} {i : ℕ} {k : Keysym}
      {hi : Tst Keysym ComposeResult} {c : Set Cell} (hrest : PendingEntries table p rest es)
      (htree : TreeAt table (i + 1) (table.node i).hikid hi c) (ht : hi.Ordered) :
      PendingEntries table (p ++ [k]) ({ offset := i, processed := true } :: rest)
        (entriesAfter p hi ++ es)

/-- The node on top of the stack is not processed; its offset is from `b` on. -/
def TopFrom (b : ℕ) : List PendingNode → Prop
  | [] => False
  | pending :: _ => pending.processed = false ∧ b ≤ pending.offset

section Iterator

variable {p : List Keysym} {rest : List PendingNode} {es : List (List Keysym × ComposeResult)}
  {b i fuel : ℕ} {c : Set Cell} {node : ComposeNode}

theorem TreeAt.offset_eq_zero_iff (h : TreeAt table b i t c) : i = 0 ↔ t = .nil := by
  constructor
  · rintro rfl
    exact h.eq_nil
  · rintro rfl
    cases h
    rfl

theorem TopFrom.mono {b' : ℕ} {nodes : List PendingNode} (h : TopFrom b nodes) (hb : b' ≤ b) :
    TopFrom b' nodes := by
  cases nodes with
  | nil => exact h
  | cons pending nodes => exact ⟨h.1, hb.trans h.2⟩

/-- A node is on the stack; those to its left are pushed. -/
theorem pending_pushLeft_step {lo : Tst Keysym ComposeResult} {clo : Set Cell} (fuel : ℕ)
    (hnode : table.nodes[i]? = some node) (hlo : TreeAt table (i + 1) node.lokid lo clo)
    (hroot : PendingEntries table p ({ offset := i, processed := false } :: rest) es)
    (ih : lo ≠ .nil → i < node.lokid → ∃ nodes,
      pushLeft table fuel node.lokid ({ offset := node.lokid, processed := false } ::
        { offset := i, processed := false } :: rest) = some nodes ∧
      PendingEntries table p nodes (entriesAfter p lo ++ es) ∧ TopFrom node.lokid nodes) :
    ∃ nodes, pushLeft table (fuel + 1) i ({ offset := i, processed := false } :: rest) =
        some nodes ∧
      PendingEntries table p nodes (entriesAfter p lo ++ es) ∧ TopFrom i nodes := by
  rw [pushLeft, node_eq hnode]
  split
  · rename_i hzero
    have hnil := hlo.offset_eq_zero_iff.mp hzero
    subst hnil
    exact ⟨_, rfl, hroot, rfl, le_rfl⟩
  · rename_i hzero
    have hne : lo ≠ .nil := mt hlo.offset_eq_zero_iff.mpr hzero
    have hlt : i < node.lokid := hlo.le_root hne
    obtain ⟨nodes, hrun, hpending, htop⟩ := ih hne hlt
    exact ⟨nodes, hrun, hpending, htop.mono hlt.le⟩

/-- With the nodes to the left of a tree on the stack, all its entries are to come. -/
theorem pending_pushLeft (htree : TreeAt table b i t c) (hne : t ≠ .nil) (ht : t.Ordered)
    (hrest : PendingEntries table p rest es) (hfuel : table.nodes.length - i ≤ fuel) :
    ∃ nodes, pushLeft table fuel i ({ offset := i, processed := false } :: rest) = some nodes ∧
      PendingEntries table p nodes (entriesAfter p t ++ es) ∧ TopFrom i nodes := by
  induction htree generalizing rest es fuel with
  | nil => exact absurd rfl hne
  | @leaf b i node k lo hi r clo chi cr hb hpos hnode hleaf hk hr hlo hhi hlohi hlor hhir ihlo =>
    have hi : i < table.nodes.length := (List.getElem?_eq_some_iff.mp hnode).1
    obtain ⟨fuel, rfl⟩ : ∃ m, fuel = m + 1 := ⟨fuel - 1, by omega⟩
    have hself := TreeAt.leaf le_rfl hpos hnode hleaf hk hr hlo hhi hlohi hlor hhir
    have hroot := PendingEntries.unprocessed hrest hself hne ht
    obtain ⟨nodes, hrun, hpending, htop⟩ := pending_pushLeft_step fuel hnode hlo hroot
      fun hne' hlt => ihlo hne' ht.2.2.1 hroot (by omega)
    refine ⟨nodes, hrun, ?_, htop⟩
    simpa [entriesAfter, rightEntries, entries] using hpending
  | @node b i node k eq lo hi clo chi ceq hb hpos hnode hleaf hk heq hlo hhi hlohi hloeq hhieq _
      ihlo =>
    have hi : i < table.nodes.length := (List.getElem?_eq_some_iff.mp hnode).1
    obtain ⟨fuel, rfl⟩ : ∃ m, fuel = m + 1 := ⟨fuel - 1, by omega⟩
    have hself := TreeAt.node le_rfl hpos hnode hleaf hk heq hlo hhi hlohi hloeq hhieq
    have hroot := PendingEntries.unprocessed hrest hself hne ht
    obtain ⟨nodes, hrun, hpending, htop⟩ := pending_pushLeft_step fuel hnode hlo hroot
      fun hne' hlt => ihlo hne' ht.2.2.1 hroot (by omega)
    refine ⟨nodes, hrun, ?_, htop⟩
    simpa [entriesAfter, rightEntries, entries, Function.comp_def] using hpending

theorem pending_pushPending (htree : TreeAt table b i t c) (hne : t ≠ .nil) (ht : t.Ordered)
    (hrest : PendingEntries table p rest es) :
    ∃ nodes, pushPending table i rest = some nodes ∧
      PendingEntries table p nodes (entriesAfter p t ++ es) ∧ TopFrom i nodes :=
  pending_pushLeft htree hne ht hrest (Nat.sub_le _ _)

/-- **The first loop** ends at a node that is not processed, or with an empty stack. -/
theorem pending_dropProcessed (h : PendingEntries table p rest es) :
    ∃ iter, dropProcessed table p rest = some iter ∧
      PendingEntries table iter.sequence iter.pendingNodes es ∧
      (iter.pendingNodes = [] ∨ TopFrom 0 iter.pendingNodes) := by
  induction h with
  | nil => exact ⟨_, rfl, .nil, .inl rfl⟩
  | unprocessed hrest htree hne ht =>
    exact ⟨_, rfl, .unprocessed hrest htree hne ht, .inr ⟨rfl, Nat.zero_le _⟩⟩
  | @processed p rest es i k hi c hrest htree ht ih =>
    rw [dropProcessed, if_pos rfl]
    dsimp only
    rw [dropLast_concat]
    split
    · rename_i hzero
      obtain ⟨nodes, hrun, hpending, htop⟩ := pending_pushPending htree
        (mt htree.offset_eq_zero_iff.mpr hzero) ht hrest
      rw [hrun]
      exact ⟨_, rfl, hpending, .inr (htop.mono (Nat.zero_le _))⟩
    · rename_i hzero
      have hnil := htree.offset_eq_zero_iff.mp (not_not.mp hzero)
      subst hnil
      exact ih

/-- The string of a leaf, as the iterator reads it. -/
theorem ResultAt.string_eq {r : ComposeResult} (hnul : table.utf8[0]? = some 0)
    (h : ResultAt table node r c) : table.string node.utf8 = r.string.getD [] := by
  cases h with
  | noString h =>
    rw [h]
    exact StringAt.cString_drop ⟨fun j hj => absurd hj (Nat.not_lt_zero j), hnul, by simp⟩
  | string _ hs => exact hs.cString_drop

/-- **The second loop** goes down to the first entry. -/
theorem pending_followDown (hnul : table.utf8[0]? = some 0) (iter : ComposeTableIterator)
    (h : PendingEntries table iter.sequence iter.pendingNodes es)
    (htop : TopFrom b iter.pendingNodes) (hfuel : table.nodes.length - b ≤ fuel) :
    ∃ e es' iter', es = e :: es' ∧
      followDown table fuel iter = some (iter', some (entryOf e)) ∧
      PendingEntries table iter'.sequence iter'.pendingNodes es' := by
  induction fuel generalizing iter es b with
  | zero =>
    obtain ⟨sequence, pending⟩ := iter
    cases h with
    | nil => exact absurd htop id
    | processed => cases htop.1
    | unprocessed _ htree hne =>
      have := htree.lt_length hne
      have := htop.2
      dsimp only at this
      omega
  | succ fuel ih =>
    obtain ⟨sequence, pending⟩ := iter
    dsimp only at h htop
    cases h with
    | nil => exact absurd htop id
    | processed => cases htop.1
    | @unprocessed _ rest es i t c hrest htree hne ht =>
      rw [followDown]
      dsimp only
      cases htree with
      | nil => exact absurd rfl hne
      | @leaf _ _ node k lo hi r clo chi cr hb hpos hnode hleaf hk hr hlo hhi =>
        rw [node_eq hnode, if_pos hleaf, hk]
        rw [← node_eq hnode] at hhi
        refine ⟨(sequence ++ [k], r), entriesAfter sequence hi ++ es,
          ⟨sequence ++ [k], ⟨i, true⟩ :: rest⟩, rfl, ?_, .processed hrest hhi ht.2.2.2⟩
        rw [hr.string_eq hnul]
        cases hr with
        | noString | string => rfl
      | @node _ _ node k eq lo hi clo chi ceq hb hpos hnode hleaf hk heq hlo hhi =>
        obtain ⟨-, -, -, hordhi, hne', hord⟩ := ht
        rw [node_eq hnode, if_neg (by simp [hleaf]), hk]
        rw [← node_eq hnode] at hhi
        obtain ⟨nodes, hrun, hpending, htop'⟩ := pending_pushPending heq hne' hord
          (.processed (k := k) hrest hhi hordhi)
        have hlt : i < node.eqkid := heq.le_root hne'
        have hbi : b ≤ i := htop.2
        obtain ⟨e, es', iter', hes, hdown, hpending'⟩ := ih
          { sequence := sequence ++ [k], pendingNodes := nodes } hpending htop' (by omega)
        refine ⟨e, es', iter', ?_, ?_, hpending'⟩
        · rw [rightEntries, append_assoc]
          exact hes
        · rw [hrun]
          exact hdown

/-- **`xkb_compose_table_iterator_next`** returns the next of the entries to come. -/
theorem pending_iteratorNext (hnul : table.utf8[0]? = some 0) (hn : 0 < table.nodes.length)
    {iter : ComposeTableIterator} (h : PendingEntries table iter.sequence iter.pendingNodes es) :
    (es = [] ∧ ∃ iter', iteratorNext table iter = some (iter', none)) ∨
      ∃ e es' iter', es = e :: es' ∧ iteratorNext table iter = some (iter', some (entryOf e)) ∧
        PendingEntries table iter'.sequence iter'.pendingNodes es' := by
  obtain ⟨iter₁, hdrop, hpending, hnil | htop⟩ := pending_dropProcessed h
  · left
    obtain ⟨sequence, pending⟩ := iter₁
    dsimp only at hnil hpending
    subst hnil
    cases hpending with
    | nil =>
      refine ⟨rfl, {}, ?_⟩
      rw [iteratorNext, hdrop, show table.nodes.length = table.nodes.length - 1 + 1 by omega]
      rfl
  · right
    obtain ⟨e, es', iter', hes, hdown, hpending'⟩ :=
      pending_followDown hnul _ hpending htop (Nat.sub_le _ 0)
    refine ⟨e, es', iter', hes, ?_, hpending'⟩
    rw [iteratorNext, hdrop]
    exact hdown

/-- Calls until the end list the entries to come. -/
theorem iterate_eq (hnul : table.utf8[0]? = some 0) (hn : 0 < table.nodes.length)
    (iter : ComposeTableIterator) (h : PendingEntries table iter.sequence iter.pendingNodes es)
    (hfuel : es.length < fuel) : iterate table fuel iter = some (es.map entryOf) := by
  induction fuel generalizing iter es with
  | zero => omega
  | succ fuel ih =>
    rcases pending_iteratorNext hnul hn h with
      ⟨rfl, iter', hnext⟩ | ⟨e, es', iter', rfl, hnext, hrest⟩
    · rw [iterate, hnext]
      rfl
    · rw [iterate, hnext]
      show (iterate table fuel iter').map _ = _
      rw [ih iter' hrest (by rw [length_cons] at hfuel; omega)]
      rfl

/-- Every entry has its own node. -/
theorem exists_offsets (h : TreeAt table b i t c) :
    ∃ offsets : Finset ℕ, (∀ j ∈ offsets, Cell.node j ∈ c) ∧ t.entries.length ≤ offsets.card := by
  have hapart : ∀ {c₁ c₂ : Set Cell} {s₁ s₂ : Finset ℕ}, Disjoint c₁ c₂ →
      (∀ j ∈ s₁, Cell.node j ∈ c₁) → (∀ j ∈ s₂, Cell.node j ∈ c₂) → Disjoint s₁ s₂ :=
    fun hdisj h₁ h₂ => Finset.disjoint_left.mpr fun j hj hj' =>
      Set.disjoint_left.mp hdisj (h₁ j hj) (h₂ j hj')
  induction h with
  | nil => exact ⟨∅, by simp, by simp [entries]⟩
  | @leaf b i node k lo hi r clo chi cr _ _ _ _ _ _ hlo hhi hlohi _ _ ihlo ihhi =>
    obtain ⟨slo, hslo, hclo⟩ := ihlo
    obtain ⟨shi, hshi, hchi⟩ := ihhi
    have hmem : i ∉ slo ∪ shi := by
      intro hmem
      rcases Finset.mem_union.mp hmem with h | h
      · exact absurd (hlo.le_of_mem (hslo i h)) (by omega)
      · exact absurd (hhi.le_of_mem (hshi i h)) (by omega)
    refine ⟨insert i (slo ∪ shi), fun j hj => ?_, ?_⟩
    · rcases Finset.mem_insert.mp hj with rfl | hj
      · exact .inl rfl
      · exact .inr (.inl ((Finset.mem_union.mp hj).imp (hslo j) (hshi j)))
    · rw [Finset.card_insert_of_notMem hmem, Finset.card_union_of_disjoint (hapart hlohi hslo hshi)]
      simp only [entries, length_append, length_cons]
      omega
  | @node b i node k eq lo hi clo chi ceq _ _ _ _ _ _ _ _ hlohi hloeq hhieq iheq ihlo ihhi =>
    obtain ⟨slo, hslo, hclo⟩ := ihlo
    obtain ⟨shi, hshi, hchi⟩ := ihhi
    obtain ⟨seq, hseq, hceq⟩ := iheq
    have hunion : ∀ j ∈ slo ∪ shi, Cell.node j ∈ clo ∪ chi := fun j hj =>
      (Finset.mem_union.mp hj).imp (hslo j) (hshi j)
    refine ⟨slo ∪ shi ∪ seq,
      fun j hj => .inr ((Finset.mem_union.mp hj).imp (hunion j) (hseq j)), ?_⟩
    rw [Finset.card_union_of_disjoint
        (hapart (Set.disjoint_union_left.mpr ⟨hloeq, hhieq⟩) hunion hseq),
      Finset.card_union_of_disjoint (hapart hlohi hslo hshi)]
    simp only [entries, length_append, length_map]
    omega

end Iterator

/-- **The iterator lists the entries of the tree**, from left to right. -/
theorem composeTableEntries_eq (h : Stores table t) :
    composeTableEntries table = some (t.entries.map entryOf) := by
  obtain ⟨hordered, ⟨c, htree, hhas⟩, hdummy, hnul⟩ := h
  have hn : 0 < table.nodes.length := (List.getElem?_eq_some_iff.mp hdummy).1
  have hlength : t.entries.length < table.nodes.length + 1 := by
    obtain ⟨offsets, hoffsets, hcard⟩ := exists_offsets htree
    have hsub : offsets ⊆ Finset.range table.nodes.length := fun j hj =>
      Finset.mem_range.mpr (hhas _ (hoffsets j hj))
    have := Finset.card_le_card hsub
    rw [Finset.card_range] at this
    omega
  unfold composeTableEntries iteratorNew
  unfold root at htree
  split at htree
  · rename_i hone
    have hnil := htree.eq_nil
    subst hnil
    rw [if_pos hone]
    exact iterate_eq hnul hn {} .nil (Nat.succ_pos _)
  · rename_i hone
    have hne : t ≠ .nil := fun heq => absurd (htree.offset_eq_zero_iff.mpr heq) (by omega)
    obtain ⟨nodes, hrun, hpending, -⟩ := pending_pushPending htree hne hordered (.nil)
    rw [if_neg hone, hrun]
    have hentries : entriesAfter [] t ++ [] = t.entries := by simp [entriesAfter]
    rw [hentries] at hpending
    exact iterate_eq hnul hn { pendingNodes := nodes } hpending hlength

/-! ### Productions -/

/-- The map of the productions that `add_production` does not discard. -/
def builtMap : List Production → ComposeTable → ComposeMap → ComposeMap
  | [], _, m => m
  | production :: productions, table, m =>
    builtMap productions ((addProduction table production).getD table)
      (if maxComposeNodes ≤ table.nodes.length + production.lhs.length then m
        else m.add production)

/-- **Every list of productions builds a table that holds a tree**, with the entries of the
productions that are not discarded. -/
theorem stores_addProductions (h : Stores table t)
    (hlhs : ∀ production ∈ productions, production.lhs ≠ []) :
    ∃ table' t', addProductions productions table = some table' ∧ Stores table' t' ∧
      (builtMap productions table fun q => t.lookup q) = fun q => t'.lookup q := by
  induction productions generalizing table t with
  | nil => exact ⟨table, t, rfl, h, rfl⟩
  | cons production productions ih =>
    obtain ⟨k, s, hks⟩ := exists_cons_of_ne_nil (hlhs production mem_cons_self)
    obtain ⟨table₁, hadd, h₁⟩ := stores_addProduction h hks
    obtain ⟨table', t', hrun, h', hmap⟩ := ih h₁ fun p hp => hlhs p (mem_cons_of_mem _ hp)
    refine ⟨table', t', ?_, h', ?_⟩
    · rw [addProductions, foldlM_cons, hadd]
      exact hrun
    · rw [builtMap, hadd, Option.getD_some, ← hmap]
      congr 1
      split
      · rfl
      · exact add_lookup hks

/-- The number of nodes stays below `MAX_COMPOSE_NODES`, so that no production is discarded. -/
def staysBelow : List Production → ComposeTable → Bool
  | [], _ => true
  | production :: productions, table =>
    decide (table.nodes.length + production.lhs.length < maxComposeNodes) &&
      staysBelow productions ((addProduction table production).getD table)

theorem builtMap_eq (m : ComposeMap) (h : staysBelow productions table = true) :
    builtMap productions table m = productions.foldl ComposeMap.add m := by
  induction productions generalizing table m with
  | nil => rfl
  | cons production productions ih =>
    rw [staysBelow, Bool.and_eq_true, decide_eq_true_eq] at h
    rw [builtMap, if_neg (by omega), ih _ h.2, foldl_cons]

/-- **Building a compose table refines a map**: the table holds a ternary search tree whose
entries are the map of the productions, and the iterator yields exactly these entries, in
strictly increasing lexicographic order of the sequences. -/
theorem compose_table_entries (productions : List Production)
    (hlhs : ∀ production ∈ productions,
      1 ≤ production.lhs.length ∧ production.lhs.length ≤ composeMaxLhsLen)
    (hbelow : staysBelow productions {} = true) :
    ∃ table t, addProductions productions {} = some table ∧ Stores table t ∧
      (∀ q r, (q, r) ∈ t.entries ↔ composeMap productions q = some r) ∧
      composeTableEntries table = some (t.entries.map entryOf) ∧
      t.entries.Pairwise fun e e' => e.1 < e'.1 := by
  obtain ⟨table, t, hrun, hstores, hmap⟩ := stores_addProductions stores_empty
    fun p hp => ne_nil_of_length_pos (hlhs p hp).1
  refine ⟨table, t, hrun, hstores, fun q r => ?_, composeTableEntries_eq hstores,
    Tst.pairwise_entries hstores.ordered⟩
  have hempty : (fun q => (Tst.nil : Tst Keysym ComposeResult).lookup q) = fun _ => none :=
    funext Tst.lookup_nil
  rw [Tst.mem_entries hstores.ordered, composeMap, ← hempty, ← builtMap_eq _ hbelow, hmap]

/-- A sequence that overrides a prefix, one that is overridden by its prefix, and a duplicate. -/
def overridingProductions : List Production :=
  [⟨[2], some 5, some [97, 98]⟩, ⟨[2, 3], none, some [99]⟩, ⟨[1, 4, 4], some 7, none⟩,
    ⟨[1, 4], some 8, some []⟩, ⟨[2, 3], none, some [99]⟩]

/-- The table of these productions. -/
theorem compose_table_entries_overriding :
    ∃ table t, addProductions overridingProductions {} = some table ∧ Stores table t ∧
      (∀ q r, (q, r) ∈ t.entries ↔ composeMap overridingProductions q = some r) ∧
      composeTableEntries table = some (t.entries.map entryOf) ∧
      t.entries.Pairwise fun e e' => e.1 < e'.1 :=
  compose_table_entries overridingProductions (by decide) (by decide)

example : (addProductions overridingProductions {}).bind composeTableEntries =
    some [⟨[1, 4], 8, []⟩, ⟨[2, 3], 0, [99]⟩] := by decide

end Xkbcommon
