import Mathlib.Data.Set.Lattice
import Mathlib.Order.CompletePartialOrder
import Xkbcommon.Compose.Table
import Xkbcommon.Lib.Splice
import Xkbcommon.Lib.Tst

/-!
# Compose tables as ternary search trees

The arrays of a compose table hold a ternary search tree (`Xkbcommon.Tst`), and adding a
production is an insertion into that tree. As a table is updated in place, the statement
has to say which part of the arrays a tree occupies: its *cells* (`Xkbcommon.Cell`) are the
nodes and the bytes of the strings, and subtrees have disjoint cells. An update that stays
within the cells of a subtree, or appends, leaves the rest of the tree as it is.

* `Xkbcommon.TreeAt` – a tree at an offset, with its cells;
* `Xkbcommon.addLoop_spec` – the loop of `add_production` is `Xkbcommon.Tst.insert`;
* `Xkbcommon.Stores` – a table that holds a tree, kept by every production
  (`Xkbcommon.stores_addProduction`).

Offsets grow from a node to its children, since nodes are only appended; this bounds
the steps of every loop.
-/

namespace Xkbcommon

open List Set ComposeTable

variable {bytes string : List UInt8} {node : ComposeNode} {offset b i : ℕ} {k : Keysym}
  {c c' d : Set Cell} {table table' : ComposeTable}

/-! ### Cells -/

/-- An item of one of the two arrays. -/
inductive Cell
  | node (offset : ℕ)
  | byte (offset : ℕ)

/-- The cell is within the arrays. -/
def ComposeTable.Has (table : ComposeTable) : Cell → Prop
  | .node i => i < table.nodes.length
  | .byte j => j < table.utf8.length

/-- The cell has the same contents in another table. -/
def ComposeTable.SameAt (table table' : ComposeTable) : Cell → Prop
  | .node i => table'.nodes[i]? = table.nodes[i]?
  | .byte j => table'.utf8[j]? = table.utf8[j]?

/-- **An update of the cells `c`**, after which `c'` are in use: the other cells keep their
contents, and what is not among the old cells is new. -/
structure Updates (table : ComposeTable) (c : Set Cell) (table' : ComposeTable) (c' : Set Cell) :
    Prop where
  same : ∀ x, table.Has x → x ∉ c → table.SameAt table' x
  cells : ∀ x ∈ c', x ∈ c ∨ ¬table.Has x
  has : ∀ x ∈ c', table'.Has x
  grows : ∀ x, table.Has x → table'.Has x

section Updates

/-- Cells that are apart from the update stay apart. -/
theorem Updates.disjoint (h : Updates table c table' c') (hd : ∀ x ∈ d, table.Has x)
    (hdc : Disjoint d c) : Disjoint d c' := by
  rw [Set.disjoint_left] at hdc ⊢
  intro x hx hx'
  rcases h.cells x hx' with hc | hnew
  · exact hdc hx hc
  · exact hnew (hd x hx)

/-- Cells that are apart from the update keep their contents. -/
theorem Updates.sameAt (h : Updates table c table' c') (hd : ∀ x ∈ d, table.Has x)
    (hdc : Disjoint d c) : ∀ x ∈ d, table.SameAt table' x :=
  fun x hx => h.same x (hd x hx) (Set.disjoint_left.mp hdc hx)

end Updates

/-! ### Results -/

/-- The result of a sequence: a keysym, `XKB_KEY_NoSymbol` if there is none, and a string. -/
@[ext]
structure ComposeResult where
  keysym : Keysym
  string : Option (List UInt8)
  deriving DecidableEq, Repr

variable {t : Tst Keysym ComposeResult} {node' : ComposeNode}

/-- The result of a production. -/
def Production.result (production : Production) : ComposeResult :=
  { keysym := production.keysym.getD noSymbol, string := production.string.map cString }

/-- A string ends at the first 0. -/
structure StringAt (bytes : List UInt8) (offset : ℕ) (string : List UInt8) : Prop where
  bytes_eq : ∀ j < string.length, bytes[offset + j]? = string[j]?
  nul : bytes[offset + string.length]? = some 0
  no_nul : 0 ∉ string

theorem StringAt.cString_drop (h : StringAt bytes offset string) :
    cString (bytes.drop offset) = string := by
  have hlength : offset + string.length < bytes.length := (List.getElem?_eq_some_iff.mp h.nul).1
  have hdrop : bytes.drop offset = string ++ 0 :: bytes.drop (offset + string.length + 1) := by
    refine ext_getElem? fun j => ?_
    rw [getElem?_drop]
    rcases lt_trichotomy j string.length with hj | rfl | hj
    · rw [getElem?_append_left hj, h.bytes_eq j hj]
    · rw [getElem?_append_right (Nat.le_refl _), Nat.sub_self, h.nul]
      rfl
    · rw [getElem?_append_right (by omega),
        show j - string.length = (j - string.length - 1) + 1 by omega, getElem?_cons_succ,
        getElem?_drop]
      congr 1
      omega
  rw [cString, hdrop, takeWhile_append_of_pos]
  · simp
  · intro a ha
    have : a ≠ 0 := fun h0 => h.no_nul (h0 ▸ ha)
    simpa using this

theorem zero_notMem_cString : 0 ∉ cString bytes := by
  intro hmem
  have := all_takeWhile (p := (· != 0)) (l := bytes)
  cases all_eq_true.mp this 0 hmem

/-- The bytes of a string, with the 0 at its end. -/
def stringCells (offset length : ℕ) : Set Cell :=
  { x | ∃ j, x = .byte j ∧ offset ≤ j ∧ j ≤ offset + length }

/-- **The result of a leaf**, with the bytes of its string. -/
inductive ResultAt (table : ComposeTable) (node : ComposeNode) : ComposeResult → Set Cell → Prop
  | noString (h : node.utf8 = 0) : ResultAt table node ⟨node.leafKeysym, none⟩ ∅
  | string {s : List UInt8} (h : node.utf8 ≠ 0) (hs : StringAt table.utf8 node.utf8 s) :
    ResultAt table node ⟨node.leafKeysym, some s⟩ (stringCells node.utf8 s.length)

section Results

variable {r : ComposeResult}

theorem ResultAt.not_node (h : ResultAt table node r c) (i : ℕ) : Cell.node i ∉ c := by
  cases h with
  | noString => exact id
  | string =>
    rintro ⟨j, hj, -⟩
    cases hj

theorem StringAt.congr {bytes' : List UInt8} (h : StringAt bytes offset string)
    (hsame : ∀ j, offset ≤ j → j ≤ offset + string.length → bytes'[j]? = bytes[j]?) :
    StringAt bytes' offset string where
  bytes_eq j hj := (hsame _ (by omega) (by omega)).trans (h.bytes_eq j hj)
  nul := (hsame _ (by omega) (by omega)).trans h.nul
  no_nul := h.no_nul

/-- The result depends on two words of the node only. -/
theorem ResultAt.of_node (h : ResultAt table node r c) (hutf8 : node'.utf8 = node.utf8)
    (hword : node'.word = node.word) (hsame : ∀ x ∈ c, table.SameAt table' x) :
    ResultAt table' node' r c := by
  have hkeysym : node.leafKeysym = node'.leafKeysym := hword.symm
  cases h with
  | noString h =>
    rw [hkeysym]
    exact .noString (hutf8.trans h)
  | string h hs =>
    rw [hkeysym, ← hutf8]
    rw [← hutf8] at h hs hsame
    exact .string h (hs.congr fun j hj hj' => hsame (.byte j) ⟨j, rfl, hj, hj'⟩)

end Results

/-! ### Trees -/

/-- **A tree at an offset**, with its cells. All its nodes are at offsets from `b` on, and below
a node are larger ones. -/
inductive TreeAt (table : ComposeTable) :
    ℕ → ℕ → Tst Keysym ComposeResult → Set Cell → Prop
  | nil {b : ℕ} : TreeAt table b 0 .nil ∅
  | leaf {b i : ℕ} {node : ComposeNode} {k : Keysym} {lo hi : Tst Keysym ComposeResult}
      {r : ComposeResult} {clo chi cr : Set Cell} (hb : b ≤ i) (hpos : 0 < i)
      (hnode : table.nodes[i]? = some node) (hleaf : node.isLeaf = true) (hk : node.keysym = k)
      (hr : ResultAt table node r cr)
      (hlo : TreeAt table (i + 1) node.lokid lo clo)
      (hhi : TreeAt table (i + 1) node.hikid hi chi)
      (hlohi : Disjoint clo chi) (hlor : Disjoint clo cr) (hhir : Disjoint chi cr) :
      TreeAt table b i (.leaf k r lo hi) (insert (.node i) (clo ∪ chi ∪ cr))
  | node {b i : ℕ} {node : ComposeNode} {k : Keysym} {eq lo hi : Tst Keysym ComposeResult}
      {clo chi ceq : Set Cell} (hb : b ≤ i) (hpos : 0 < i) (hnode : table.nodes[i]? = some node)
      (hleaf : node.isLeaf = false) (hk : node.keysym = k)
      (heq : TreeAt table (i + 1) node.eqkid eq ceq)
      (hlo : TreeAt table (i + 1) node.lokid lo clo)
      (hhi : TreeAt table (i + 1) node.hikid hi chi)
      (hlohi : Disjoint clo chi) (hloeq : Disjoint clo ceq) (hhieq : Disjoint chi ceq) :
      TreeAt table b i (.node k eq lo hi) (insert (.node i) (clo ∪ chi ∪ ceq))

section Trees

theorem TreeAt.congr (h : TreeAt table b i t c) (hsame : ∀ x ∈ c, table.SameAt table' x) :
    TreeAt table' b i t c := by
  induction h with
  | nil => exact .nil
  | @leaf b i node k lo hi r clo chi cr hb hpos hnode hleaf hk hr _ _ hlohi hlor hhir ihlo ihhi =>
    have hnode' : table'.nodes[i]? = some node := (hsame (.node i) (mem_insert _ _)).trans hnode
    exact .leaf hb hpos hnode' hleaf hk
      (hr.of_node rfl rfl fun x hx => hsame x (.inr (.inr hx)))
      (ihlo fun x hx => hsame x (.inr (.inl (.inl hx))))
      (ihhi fun x hx => hsame x (.inr (.inl (.inr hx)))) hlohi hlor hhir
  | @node b i node k eq lo hi clo chi ceq hb hpos hnode hleaf hk _ _ _ hlohi hloeq hhieq iheq ihlo
      ihhi =>
    have hnode' : table'.nodes[i]? = some node := (hsame (.node i) (mem_insert _ _)).trans hnode
    exact .node hb hpos hnode' hleaf hk (iheq fun x hx => hsame x (.inr (.inr hx)))
      (ihlo fun x hx => hsame x (.inr (.inl (.inl hx))))
      (ihhi fun x hx => hsame x (.inr (.inl (.inr hx)))) hlohi hloeq hhieq

/-- The nodes of a tree are at offsets from the bound on. -/
theorem TreeAt.le_of_mem (h : TreeAt table b i t c) {j : ℕ} (hj : Cell.node j ∈ c) : b ≤ j := by
  induction h with
  | nil => cases hj
  | leaf hb _ _ _ _ hr _ _ _ _ _ ihlo ihhi =>
    rcases hj with hj | (hj | hj) | hj
    · cases hj
      exact hb
    · have := ihlo hj
      omega
    · have := ihhi hj
      omega
    · exact absurd hj (hr.not_node j)
  | node hb _ _ _ _ _ _ _ _ _ _ iheq ihlo ihhi =>
    rcases hj with hj | (hj | hj) | hj
    · cases hj
      exact hb
    · have := ihlo hj
      omega
    · have := ihhi hj
      omega
    · have := iheq hj
      omega

theorem TreeAt.eq_nil (h : TreeAt table b 0 t c) : t = .nil := by
  cases h with
  | nil => rfl
  | leaf _ hpos => omega
  | node _ hpos => omega

theorem TreeAt.le_root (h : TreeAt table b i t c) (hne : t ≠ .nil) : b ≤ i := by
  cases h with
  | nil => exact absurd rfl hne
  | leaf hb | node hb => exact hb

theorem TreeAt.lt_length (h : TreeAt table b i t c) (hne : t ≠ .nil) : i < table.nodes.length := by
  cases h with
  | nil => exact absurd rfl hne
  | leaf _ _ hnode | node _ _ hnode => exact (List.getElem?_eq_some_iff.mp hnode).1

theorem ComposeTable.node_eq (h : table.nodes[i]? = some node) : table.node i = node := by
  rw [ComposeTable.node, getD_eq_getElem?_getD, h]
  rfl

end Trees

/-! ### The last keysym -/

section Result

/-- A string that is written where the bytes are free. -/
theorem stringAt_of_bytes (hnul : 0 ∉ string)
    (h : ∀ j < (string ++ [0]).length, bytes[offset + j]? = (string ++ [0])[j]?) :
    StringAt bytes offset string where
  bytes_eq j hj := by
    rw [h j (by simp; omega), getElem?_append_left hj]
  nul := by
    rw [h string.length (by simp), getElem?_append_right (le_refl _)]
    simp
  no_nul := hnul

/-- The leaf that `add_production` leaves behind, with its bytes. -/
structure LeafSet (table : ComposeTable) (i : ℕ) (node : ComposeNode) (c : Set Cell)
    (r : ComposeResult) (table' : ComposeTable) (node' : ComposeNode) (c' : Set Cell) : Prop where
  node_eq : table'.nodes[i]? = some node'
  isLeaf : node'.isLeaf = true
  keysym : node'.keysym = node.keysym
  lokid : node'.lokid = node.lokid
  hikid : node'.hikid = node.hikid
  result : ResultAt table' node' r c'
  updates : Updates table (insert (.node i) c) table' (insert (.node i) c')

/-- A leaf whose bytes are new, or within the old ones. -/
theorem leafSet_of_bytes {s : List UInt8} (hnode : table.nodes[i]? = some node)
    (hoffset : offset ≠ 0) (hs : StringAt bytes offset s)
    (hlength : table.utf8.length ≤ bytes.length)
    (hsame : ∀ j < table.utf8.length, Cell.byte j ∉ c → bytes[j]? = table.utf8[j]?)
    (hcells : ∀ j, offset ≤ j → j ≤ offset + s.length →
      Cell.byte j ∈ c ∨ ¬j < table.utf8.length) : LeafSet table i node c ⟨k, some s⟩
      { table with
        utf8 := bytes
        nodes := table.nodes.set i { node with utf8 := offset, word := k, isLeaf := true } }
      { node with utf8 := offset, word := k, isLeaf := true } (stringCells offset s.length) := by
  have hi : i < table.nodes.length := (List.getElem?_eq_some_iff.mp hnode).1
  have hend : offset + s.length < bytes.length := (List.getElem?_eq_some_iff.mp hs.nul).1
  refine ⟨getElem?_set_self hi, rfl, rfl, rfl, rfl, .string hoffset hs, ?_, ?_, ?_, ?_⟩
  · rintro (j | j) hj hc
    · exact getElem?_set_ne fun heq => hc (.inl (by rw [heq]))
    · exact hsame j hj fun hmem => hc (.inr hmem)
  · rintro x (rfl | ⟨j, rfl, hj, hj'⟩)
    · exact .inl (.inl rfl)
    · exact (hcells j hj hj').imp .inr id
  · rintro x (rfl | ⟨j, rfl, hj, hj'⟩)
    · show i < (table.nodes.set i _).length
      rwa [length_set]
    · show j < bytes.length
      omega
  · rintro (j | j) hj
    · show j < (table.nodes.set i _).length
      rwa [length_set]
    · exact lt_of_lt_of_le hj hlength

/-- A leaf without a string. -/
theorem leafSet_none (hnode : table.nodes[i]? = some node) :
    LeafSet table i node c ⟨k, none⟩
      { table with nodes := table.nodes.set i { node with utf8 := 0, word := k, isLeaf := true } }
      { node with utf8 := 0, word := k, isLeaf := true } ∅ := by
  have hi : i < table.nodes.length := (List.getElem?_eq_some_iff.mp hnode).1
  refine ⟨getElem?_set_self hi, rfl, rfl, rfl, rfl, .noString rfl, ?_, ?_, ?_, ?_⟩
  · rintro (j | j) hj hc
    · exact getElem?_set_ne fun heq => hc (.inl (by rw [heq]))
    · rfl
  · rintro x (rfl | hx)
    · exact .inl (.inl rfl)
    · exact absurd hx (notMem_empty x)
  · rintro x (rfl | hx)
    · show i < (table.nodes.set i _).length
      rwa [length_set]
    · exact absurd hx (notMem_empty x)
  · rintro (j | j) hj
    · show j < (table.nodes.set i _).length
      rwa [length_set]
    · exact hj

/-- A leaf with the result of the production is left alone. -/
theorem result_eq_of_sameResult {production : Production} {r : ComposeResult}
    (hr : ResultAt table node r c) (h : sameResult table node production = true) :
    r = production.result := by
  obtain ⟨hstring, hkeysym⟩ := Bool.and_eq_true_iff.mp h
  have hword : node.leafKeysym = production.result.keysym := by
    show node.leafKeysym = production.keysym.getD noSymbol
    cases hk : production.keysym with
    | none =>
      rw [hk] at hkeysym
      simpa using hkeysym
    | some k =>
      rw [hk] at hkeysym
      simp only [Bool.and_eq_true, beq_iff_eq] at hkeysym
      exact hkeysym.2
  have heq : r.string = production.result.string := by
    show r.string = production.string.map cString
    cases hs : production.string with
    | none =>
      rw [hs] at hstring
      cases hr with
      | noString => rfl
      | string h => exact absurd (by simpa using hstring) h
    | some s =>
      rw [hs] at hstring
      simp only [Bool.and_eq_true, bne_iff_ne, ne_eq, beq_iff_eq] at hstring
      cases hr with
      | noString h => exact absurd h hstring.1
      | string _ hs' =>
        rw [Option.map_some, ← hstring.2]
        exact congrArg some hs'.cString_drop.symm
  have hkeysym' : r.keysym = node.leafKeysym := by
    cases hr with
    | noString | string => rfl
  exact ComposeResult.ext (hkeysym'.trans hword) heq

/-- **The node of the last keysym becomes a leaf with the result.** -/
theorem addResult_spec {production : Production} (hpool : 0 < table.utf8.length)
    (hnode : table.nodes[i]? = some node) (hr : node.isLeaf = true → ∃ r, ResultAt table node r c)
    (hhas : ∀ x ∈ c, table.Has x) :
    ∃ node' c', LeafSet table i node c production.result (addResult table i production)
      node' c' := by
  have hi : i < table.nodes.length := (List.getElem?_eq_some_iff.mp hnode).1
  unfold addResult
  rw [node_eq hnode]
  dsimp only
  split
  · -- a duplicate
    rename_i hdup
    obtain ⟨r, hr⟩ := hr hdup.1
    have hres := result_eq_of_sameResult hr hdup.2
    subst hres
    refine ⟨node, c, hnode, hdup.1, rfl, rfl, rfl, hr, fun x _ _ => ?_, fun x hx => .inl hx, ?_,
      fun x hx => hx⟩
    · cases x <;> rfl
    · rintro x (rfl | hx)
      · exact hi
      · exact hhas x hx
  · have hresult : production.result =
        ⟨production.keysym.getD noSymbol, production.string.map cString⟩ := rfl
    have hnul : ∀ s, production.string.map cString = some s → 0 ∉ s := by
      intro s hs
      obtain ⟨string, -, rfl⟩ := Option.map_eq_some_iff.mp hs
      exact zero_notMem_cString
    rw [hresult]
    generalize production.string.map cString = string at hnul ⊢
    generalize production.keysym.getD noSymbol = k
    cases string with
    | none => exact ⟨_, _, leafSet_none hnode⟩
    | some s =>
      have hnul := hnul s rfl
      dsimp only [setString]
      split
      · -- the old string is overwritten
        rename_i hreuse
        obtain ⟨r, hr⟩ := hr hreuse.1
        cases hr with
        | noString h => exact absurd h hreuse.2.1
        | @string old h hold =>
          have hlen : s.length ≤ old.length := by
            rw [← hold.cString_drop]
            exact hreuse.2.2
          have hend := (List.getElem?_eq_some_iff.mp hold.nul).1
          have hfit : node.utf8 + (s ++ [0]).length ≤ table.utf8.length := by
            rw [length_append, length_singleton]
            omega
          refine ⟨_, _, leafSet_of_bytes hnode h (stringAt_of_bytes hnul fun j hj => ?_)
            (Splice.length_overwrite hfit).ge (fun j hj hc => ?_) fun j hj hj' => ?_⟩
          · exact Splice.getElem?_overwrite_add (by omega) hj
          · refine Splice.getElem?_overwrite_of_not (by omega) fun ⟨hle, hlt⟩ => ?_
            rw [length_append, length_singleton] at hlt
            exact hc ⟨j, rfl, hle, by omega⟩
          · exact .inl ⟨j, rfl, hj, by omega⟩
      · -- the string is appended
        refine ⟨_, _, leafSet_of_bytes hnode (ne_of_gt hpool)
          (stringAt_of_bytes hnul fun j hj => ?_) (by simp) (fun j hj _ => ?_) fun j hj _ => ?_⟩
        · rw [getElem?_append_right (by omega), Nat.add_sub_cancel_left]
        · exact getElem?_append_left hj
        · exact .inr (by omega)

end Result

/-! ### Pointers -/

section Links

variable {pptr : Option (ℕ × Link)} {x : Cell}

/-- The target of a pointer. -/
def ComposeNode.link (node : ComposeNode) : Link → ℕ
  | .lokid => node.lokid
  | .hikid => node.hikid
  | .eqkid => node.eqkid

/-- The table with the pointer to a new node, if there is no node yet. -/
def ComposeTable.linked (table : ComposeTable) (curr : ℕ) (pptr : Option (ℕ × Link)) :
    ComposeTable :=
  if curr = 0 then table.setLink pptr table.nodes.length else table

theorem has_setNode (table : ComposeTable) (i : ℕ) (node : ComposeNode) (x : Cell) :
    (table.setNode i node).Has x ↔ table.Has x := by
  cases x with
  | node j =>
    show j < (table.nodes.set i node).length ↔ _
    rw [length_set]
    rfl
  | byte j => rfl

theorem has_setLink : (table.setLink pptr offset).Has x ↔ table.Has x := by
  cases pptr with
  | none => rfl
  | some pptr => exact has_setNode _ _ _ x

theorem has_linked (curr : ℕ) : (table.linked curr pptr).Has x ↔ table.Has x := by
  unfold linked
  split
  · exact has_setLink
  · rfl

theorem length_setLink (table : ComposeTable) (pptr : Option (ℕ × Link)) (offset : ℕ) :
    (table.setLink pptr offset).nodes.length = table.nodes.length := by
  cases pptr with
  | none => rfl
  | some pptr => exact length_set

/-- A node may be written before the update. -/
theorem Updates.of_setNode (h : Updates (table.setNode i node) c table' c')
    (hi : i < table.nodes.length) :
    Updates table (insert (.node i) c) table' (insert (.node i) c') where
  same x hx hxc := by
    have hsame := h.same x ((has_setNode table i node x).mpr hx) fun hmem => hxc (.inr hmem)
    cases x with
    | node j =>
      refine hsame.trans (getElem?_set_ne fun heq => hxc (.inl ?_))
      rw [heq]
    | byte j => exact hsame
  cells := by
    rintro x (rfl | hx)
    · exact .inl (.inl rfl)
    · exact (h.cells x hx).imp .inr (mt (has_setNode table i node x).mpr)
  has := by
    rintro x (rfl | hx)
    · exact h.grows (.node i) ((has_setNode table i node _).mpr hi)
    · exact h.has x hx
  grows x hx := h.grows x ((has_setNode table i node x).mpr hx)

theorem length_newNode (table : ComposeTable) (pptr : Option (ℕ × Link)) (k : Keysym) :
    (newNode table pptr k).nodes.length = table.nodes.length + 1 := by
  show ((table.setLink pptr table.nodes.length).nodes ++ _).length = _
  rw [length_append, length_setLink]
  rfl

theorem utf8_newNode (pptr : Option (ℕ × Link)) : (newNode table pptr k).utf8 = table.utf8 := by
  cases pptr <;> rfl

theorem getElem?_newNode (table : ComposeTable) (pptr : Option (ℕ × Link)) (k : Keysym) :
    (newNode table pptr k).nodes[table.nodes.length]? = some { keysym := k } := by
  have hlength := length_setLink table pptr table.nodes.length
  show ((table.setLink pptr table.nodes.length).nodes ++ _)[_]? = _
  rw [getElem?_append_right hlength.le, hlength, Nat.sub_self]
  rfl

/-- A node may be appended before the update. -/
theorem Updates.of_newNode
    (h : Updates (newNode table pptr k) (insert (.node table.nodes.length) c) table' c') :
    Updates (table.setLink pptr table.nodes.length) c table' c' := by
  have hlength := length_setLink table pptr table.nodes.length
  have hhas : ∀ x, (table.setLink pptr table.nodes.length).Has x →
      (newNode table pptr k).Has x := by
    rintro (j | j) hj
    · show j < (newNode table pptr k).nodes.length
      have hj' : j < (table.setLink pptr table.nodes.length).nodes.length := hj
      rw [length_newNode]
      omega
    · exact hj
  refine ⟨fun x hx hxc => ?_, fun x hx => ?_, h.has, fun x hx => h.grows x (hhas x hx)⟩
  · have hne : x ≠ .node table.nodes.length := by
      rintro rfl
      have hlt : table.nodes.length < (table.setLink pptr table.nodes.length).nodes.length := hx
      omega
    have hsame := h.same x (hhas x hx) (by rintro (hmem | hmem) <;> contradiction)
    cases x with
    | node j => exact hsame.trans (getElem?_append_left hx)
    | byte j => exact hsame
  · rcases h.cells x hx with (rfl | hc) | hnew
    · refine .inr fun hhas' => ?_
      have hlt : table.nodes.length < (table.setLink pptr table.nodes.length).nodes.length := hhas'
      omega
    · exact .inl hc
    · exact .inr (mt (hhas x) hnew)

theorem Updates.mono (h : Updates table c table' c') (hcd : c ⊆ d) : Updates table d table' c' :=
  ⟨fun x hx hxd => h.same x hx fun hxc => hxd (hcd hxc),
    fun x hx => (h.cells x hx).imp (@hcd x) id, h.has, h.grows⟩

/-- Cells that are not touched may be added. -/
theorem Updates.frame (h : Updates table c table' c') (hd : ∀ x ∈ d, table.Has x) :
    Updates table (c ∪ d) table' (c' ∪ d) where
  same x hx hxc := h.same x hx fun hmem => hxc (.inl hmem)
  cells x hx := hx.elim (fun hx => (h.cells x hx).imp .inl id) fun hx => .inl (.inr hx)
  has x hx := hx.elim (h.has x) fun hx => h.grows x (hd x hx)
  grows := h.grows

/-- **An update below a pointer** of a node: the node has the pointer to the new subtree, and
other cells `d` keep their contents. -/
theorem Updates.below {l : Link} (hnode : table.nodes[i]? = some node)
    (h : Updates (table.linked (node.link l) (some (i, l))) c table' c') (hic : Cell.node i ∉ c)
    (hd : ∀ x ∈ d, table.Has x) (hid : Cell.node i ∉ d) (hdc : Disjoint d c) :
    table'.nodes[i]? = some (node.setLink
        (if node.link l = 0 then table.nodes.length else node.link l) l) ∧
      (∀ x ∈ d, table.SameAt table' x) ∧ Disjoint d c' ∧
      Updates table (insert (.node i) (c ∪ d)) table' (insert (.node i) (c' ∪ d)) := by
  have hi : i < table.nodes.length := (List.getElem?_eq_some_iff.mp hnode).1
  have hnode' : (table.linked (node.link l) (some (i, l))).nodes[i]? = some (node.setLink
      (if node.link l = 0 then table.nodes.length else node.link l) l) := by
    unfold linked
    split
    · show (table.nodes.set i _)[i]? = _
      rw [getElem?_set_self hi, node_eq hnode]
    · rw [hnode]
      cases l <;> rfl
  have hupdates : Updates table (insert (.node i) c) table' (insert (.node i) c') := by
    unfold linked at h
    split at h
    · exact h.of_setNode hi
    · refine ⟨fun x hx hxc => h.same x hx fun hmem => hxc (.inr hmem), ?_, ?_, h.grows⟩
      · rintro x (rfl | hx)
        · exact .inl (.inl rfl)
        · exact (h.cells x hx).imp .inr id
      · rintro x (rfl | hx)
        · exact h.grows _ hi
        · exact h.has x hx
  have hdic : Disjoint d (insert (.node i) c) := by
    rw [Set.disjoint_left] at hdc ⊢
    rintro x hx (rfl | hmem)
    · exact hid hx
    · exact hdc hx hmem
  refine ⟨?_, hupdates.sameAt hd hdic, (hupdates.disjoint hd hdic).mono_right
    (Set.subset_insert _ _), ?_⟩
  · exact (h.same (.node i) ((has_linked _).mpr hi) hic).trans hnode'
  · rw [← insert_union, ← insert_union]
    exact hupdates.frame hd

end Links

/-! ### The loop -/

section Loop

variable (production : Production) {s : List Keysym}

/-- A step where there is no node: one is appended. -/
theorem addLoop_new (fuel : ℕ) (pptr : Option (ℕ × Link)) :
    addLoop production (fuel + 1) table (k :: s) 0 pptr =
      if s = [] then some (addResult (newNode table pptr k) table.nodes.length production)
      else addLoop production fuel (newNode table pptr k) s 0
        (some (table.nodes.length, .eqkid)) := by
  have hnode := node_eq (getElem?_newNode table pptr k)
  simp only [addLoop, if_true, hnode, lt_irrefl, if_false, Bool.false_eq_true]
  rfl

/-- Where there is no node, the rest of the sequence is appended as a chain. -/
theorem addLoop_nil (table : ComposeTable) (hpool : 0 < table.utf8.length)
    (hn : 0 < table.nodes.length) (hb : b ≤ table.nodes.length) (fuel : ℕ)
    (hfuel : s.length + 1 ≤ fuel) (pptr : Option (ℕ × Link)) :
    ∃ table' c', addLoop production fuel table (k :: s) 0 pptr = some table' ∧
      TreeAt table' b table.nodes.length (Tst.chain production.result k s) c' ∧
      Updates (table.setLink pptr table.nodes.length) ∅ table' c' := by
  induction s generalizing table b k fuel pptr with
  | nil =>
    obtain ⟨fuel, rfl⟩ : ∃ m, fuel = m + 1 := ⟨fuel - 1, by omega⟩
    obtain ⟨node', c', hset⟩ := addResult_spec (c := ∅)
      (by rwa [utf8_newNode]) (getElem?_newNode table pptr k) (fun h => by cases h)
      fun x hx => absurd hx (notMem_empty x)
    rw [addLoop_new, if_pos rfl]
    generalize addResult (newNode table pptr k) table.nodes.length production = table' at hset
    refine ⟨table', insert (.node table.nodes.length) c', rfl, ?_, hset.updates.of_newNode⟩
    have htree : TreeAt table' b table.nodes.length (.leaf k production.result .nil .nil)
        (insert (.node table.nodes.length) (∅ ∪ ∅ ∪ c')) :=
      .leaf hb hn hset.node_eq hset.isLeaf hset.keysym hset.result (hset.lokid ▸ .nil)
        (hset.hikid ▸ .nil) (disjoint_empty _) (empty_disjoint _) (empty_disjoint _)
    rwa [empty_union, empty_union] at htree
  | cons k₂ s ih =>
    obtain ⟨fuel, rfl⟩ : ∃ m, fuel = m + 1 := ⟨fuel - 1, by omega⟩
    have hlength := length_newNode table pptr k
    have hlt : table.nodes.length < (newNode table pptr k).nodes.length := by omega
    obtain ⟨table', c', hrun, htree, hupdates⟩ := ih (k := k₂) (b := table.nodes.length + 1)
      (newNode table pptr k) (by rwa [utf8_newNode]) (by omega) hlength.ge fuel
      (by rw [length_cons] at hfuel; omega) (some (table.nodes.length, .eqkid))
    rw [hlength] at htree hupdates
    have hnode' : table'.nodes[table.nodes.length]? =
        some { keysym := k, word := table.nodes.length + 1 } := by
      refine (hupdates.same (.node table.nodes.length) (has_setLink.mpr hlt)
        (notMem_empty _)).trans ?_
      show (List.set _ _ _)[_]? = _
      rw [getElem?_set_self hlt, node_eq (getElem?_newNode table pptr k)]
      rfl
    rw [addLoop_new, if_neg (by simp)]
    refine ⟨table', insert (.node table.nodes.length) c', hrun, ?_,
      (hupdates.of_setNode hlt).of_newNode⟩
    have htree' : TreeAt table' b table.nodes.length
        (.node k (Tst.chain production.result k₂ s) .nil .nil)
        (insert (.node table.nodes.length) (∅ ∪ ∅ ∪ c')) :=
      .node hb hn hnode' rfl rfl htree .nil .nil (disjoint_empty _) (empty_disjoint _)
        (empty_disjoint _)
    rwa [empty_union, empty_union] at htree'

/-- The new leaf, between the trees at its sides. -/
theorem LeafSet.treeAt {r : ComposeResult} {lo hi : Tst Keysym ComposeResult}
    {clo chi cr cr' : Set Cell} (hset : LeafSet table i node cr r table' node' cr') (hbi : b ≤ i)
    (hpos : 0 < i) (hlo : TreeAt table (i + 1) node.lokid lo clo)
    (hhi : TreeAt table (i + 1) node.hikid hi chi) (hhaslo : ∀ x ∈ clo, table.Has x)
    (hhashi : ∀ x ∈ chi, table.Has x) (hlohi : Disjoint clo chi) (hlor : Disjoint clo cr)
    (hhir : Disjoint chi cr) :
    TreeAt table' b i (.leaf node.keysym r lo hi) (insert (.node i) (clo ∪ chi ∪ cr')) ∧
      Updates table (insert (.node i) (clo ∪ chi ∪ cr)) table'
        (insert (.node i) (clo ∪ chi ∪ cr')) := by
  have hilo : Cell.node i ∉ clo := fun hmem => absurd (hlo.le_of_mem hmem) (by omega)
  have hihi : Cell.node i ∉ chi := fun hmem => absurd (hhi.le_of_mem hmem) (by omega)
  have hdlo : Disjoint clo (insert (.node i) cr) := disjoint_insert_right.mpr ⟨hilo, hlor⟩
  have hdhi : Disjoint chi (insert (.node i) cr) := disjoint_insert_right.mpr ⟨hihi, hhir⟩
  have hlo' := hlo.congr (hset.updates.sameAt hhaslo hdlo)
  have hhi' := hhi.congr (hset.updates.sameAt hhashi hdhi)
  rw [← hset.lokid] at hlo'
  rw [← hset.hikid] at hhi'
  refine ⟨.leaf hbi hpos hset.node_eq hset.isLeaf hset.keysym hset.result hlo' hhi' hlohi
    (disjoint_insert_right.mp (hset.updates.disjoint hhaslo hdlo)).2
    (disjoint_insert_right.mp (hset.updates.disjoint hhashi hdhi)).2, ?_⟩
  have hframe := hset.updates.frame (d := clo ∪ chi) fun x hx => hx.elim (hhaslo x) (hhashi x)
  simpa only [insert_union, union_comm cr, union_comm cr'] using hframe

/-- **The loop of `add_production` is an insertion** into the tree at the current offset. -/
theorem addLoop_spec (h : TreeAt table b i t c) (hhas : ∀ x ∈ c, table.Has x)
    (hpool : 0 < table.utf8.length) (hn : 0 < table.nodes.length) (hb : b ≤ table.nodes.length)
    (fuel : ℕ) (hfuel : table.nodes.length - b + s.length + 1 ≤ fuel) (pptr : Option (ℕ × Link)) :
    ∃ table' c', addLoop production fuel table (k :: s) i pptr = some table' ∧
      TreeAt table' b (if i = 0 then table.nodes.length else i)
        (t.insert production.result k s) c' ∧
      Updates (table.linked i pptr) c table' c' := by
  induction h generalizing k s fuel pptr with
  | nil => exact addLoop_nil production table hpool hn hb fuel (by omega) pptr
  | @leaf b i node k' lo hi r clo chi cr hbi hpos hnode hleaf hk' hr hlo hhi hlohi hlor hhir ihlo
      ihhi =>
    obtain ⟨fuel, rfl⟩ : ∃ m, fuel = m + 1 := ⟨fuel - 1, by omega⟩
    have hi : i < table.nodes.length := (List.getElem?_eq_some_iff.mp hnode).1
    have hi0 : i ≠ 0 := by omega
    have hhaslo : ∀ x ∈ clo, table.Has x := fun x hx => hhas x (.inr (.inl (.inl hx)))
    have hhashi : ∀ x ∈ chi, table.Has x := fun x hx => hhas x (.inr (.inl (.inr hx)))
    have hhasr : ∀ x ∈ cr, table.Has x := fun x hx => hhas x (.inr (.inr hx))
    have hilo : Cell.node i ∉ clo := fun hmem => absurd (hlo.le_of_mem hmem) (by omega)
    have hihi : Cell.node i ∉ chi := fun hmem => absurd (hhi.le_of_mem hmem) (by omega)
    have hir := hr.not_node i
    simp only [addLoop, linked, if_neg hi0, node_eq hnode, hk', Tst.insert]
    rcases lt_trichotomy k k' with hk | hk | hk
    · rw [if_pos hk, if_pos hk]
      obtain ⟨table', clo', hrun, htree, hupdates⟩ :=
        ihlo (k := k) (s := s) hhaslo hi fuel (by omega) (some (i, .lokid))
      obtain ⟨hnode', hsame, hdisj, hupdates'⟩ := hupdates.below (l := .lokid) (d := chi ∪ cr) hnode
        hilo (fun x hx => hx.elim (hhashi x) (hhasr x)) (fun hmem => hmem.elim hihi hir)
        (disjoint_union_left.mpr ⟨hlohi.symm, hlor.symm⟩)
      obtain ⟨hdhi, hdr⟩ := disjoint_union_left.mp hdisj
      refine ⟨table', _, hrun, .leaf hbi hpos hnode' hleaf hk'
        (hr.of_node rfl rfl fun x hx => hsame x (.inr hx)) htree
        (hhi.congr fun x hx => hsame x (.inl hx)) hdhi.symm hdr.symm hhir, ?_⟩
      simpa only [union_assoc] using hupdates'
    · subst hk
      rw [if_neg (lt_irrefl _), if_neg (lt_irrefl _), if_neg (lt_irrefl _), if_neg (lt_irrefl _)]
      cases s with
      | nil =>
        rw [if_pos rfl]
        obtain ⟨node', cr', hset⟩ := addResult_spec hpool hnode (fun _ => ⟨r, hr⟩) hhasr
        have htree := hset.treeAt hbi hpos hlo hhi hhaslo hhashi hlohi hlor hhir
        rw [hk'] at htree
        exact ⟨_, _, rfl, htree⟩
      | cons k₂ s =>
        -- the leaf becomes an internal node, and the rest of the sequence follows it
        rw [if_neg (by simp), if_pos hleaf]
        generalize hnode₂ :
          ({ keysym := k, lokid := node.lokid, hikid := node.hikid, utf8 := node.utf8 } :
            ComposeNode) = node₂
        have hset : (table.setNode i node₂).nodes[i]? = some node₂ := getElem?_set_self hi
        have hlength : (table.setNode i node₂).nodes.length = table.nodes.length := length_set
        have hhas₂ := has_setNode table i node₂
        have hapart : ∀ d : Set Cell, Cell.node i ∉ d →
            ∀ x ∈ d, table.SameAt (table.setNode i node₂) x := by
          rintro d hd (j | j) hj
          · refine getElem?_set_ne fun heq => hd ?_
            rwa [heq]
          · rfl
        have heqkid : node₂.eqkid = 0 := hnode₂ ▸ rfl
        obtain ⟨table', ceq, hrun, htree, hupdates⟩ := addLoop_nil production
          (b := i + 1) (k := k₂) (s := s) (table.setNode i node₂) hpool
          (hlength ▸ hn) (hlength ▸ hi) fuel (by rw [length_cons] at hfuel; omega)
          (some (i, .eqkid))
        obtain ⟨hnode', hsame, hdisj, hupdates'⟩ := Updates.below (l := .eqkid) (d := clo ∪ chi)
          (c := ∅) hset
          (by rwa [linked, if_pos (show node₂.link .eqkid = 0 from heqkid)])
          (notMem_empty _) (fun x hx => (hhas₂ x).mpr (hx.elim (hhaslo x) (hhashi x)))
          (fun hmem => hmem.elim hilo hihi) (disjoint_empty _)
        rw [if_pos (show node₂.link .eqkid = 0 from heqkid)] at hnode'
        obtain ⟨hdlo, hdhi⟩ := disjoint_union_left.mp hdisj
        have hlo' := (hlo.congr (hapart clo hilo)).congr fun x hx => hsame x (.inl hx)
        have hhi' := (hhi.congr (hapart chi hihi)).congr fun x hx => hsame x (.inr hx)
        rw [show node.lokid = node₂.lokid from hnode₂ ▸ rfl] at hlo'
        rw [show node.hikid = node₂.hikid from hnode₂ ▸ rfl] at hhi'
        refine ⟨table', insert (.node i) (clo ∪ chi ∪ ceq), ?_, .node hbi hpos hnode' (hnode₂ ▸ rfl)
          (hnode₂ ▸ rfl) htree hlo' hhi' hlohi hdlo hdhi, ?_⟩
        · rw [node_eq hset, heqkid]
          exact hrun
        · have hstep := hupdates'.of_setNode hi
          rw [insert_idem, insert_idem, empty_union, union_comm ceq] at hstep
          exact hstep.mono (insert_subset_insert subset_union_left)
    · rw [if_neg hk.not_gt, if_pos hk, if_neg hk.not_gt, if_pos hk]
      obtain ⟨table', chi', hrun, htree, hupdates⟩ :=
        ihhi (k := k) (s := s) hhashi hi fuel (by omega) (some (i, .hikid))
      obtain ⟨hnode', hsame, hdisj, hupdates'⟩ := hupdates.below (l := .hikid) (d := clo ∪ cr) hnode
        hihi (fun x hx => hx.elim (hhaslo x) (hhasr x)) (fun hmem => hmem.elim hilo hir)
        (disjoint_union_left.mpr ⟨hlohi, hhir.symm⟩)
      obtain ⟨hdlo, hdr⟩ := disjoint_union_left.mp hdisj
      refine ⟨table', _, hrun, .leaf hbi hpos hnode' hleaf hk'
        (hr.of_node rfl rfl fun x hx => hsame x (.inr hx))
        (hlo.congr fun x hx => hsame x (.inl hx)) htree hdlo hlor hdr.symm, ?_⟩
      simpa only [union_assoc, union_left_comm chi, union_left_comm chi'] using hupdates'
  | @node b i node k' eq lo hi clo chi ceq hbi hpos hnode hleaf hk' heq hlo hhi hlohi hloeq hhieq
      iheq ihlo ihhi =>
    obtain ⟨fuel, rfl⟩ : ∃ m, fuel = m + 1 := ⟨fuel - 1, by omega⟩
    have hi : i < table.nodes.length := (List.getElem?_eq_some_iff.mp hnode).1
    have hi0 : i ≠ 0 := by omega
    have hhaslo : ∀ x ∈ clo, table.Has x := fun x hx => hhas x (.inr (.inl (.inl hx)))
    have hhashi : ∀ x ∈ chi, table.Has x := fun x hx => hhas x (.inr (.inl (.inr hx)))
    have hhaseq : ∀ x ∈ ceq, table.Has x := fun x hx => hhas x (.inr (.inr hx))
    have hilo : Cell.node i ∉ clo := fun hmem => absurd (hlo.le_of_mem hmem) (by omega)
    have hihi : Cell.node i ∉ chi := fun hmem => absurd (hhi.le_of_mem hmem) (by omega)
    have hieq : Cell.node i ∉ ceq := fun hmem => absurd (heq.le_of_mem hmem) (by omega)
    simp only [addLoop, linked, if_neg hi0, node_eq hnode, hk', Tst.insert]
    rcases lt_trichotomy k k' with hk | hk | hk
    · rw [if_pos hk, if_pos hk]
      obtain ⟨table', clo', hrun, htree, hupdates⟩ :=
        ihlo (k := k) (s := s) hhaslo hi fuel (by omega) (some (i, .lokid))
      obtain ⟨hnode', hsame, hdisj, hupdates'⟩ :=
        hupdates.below (l := .lokid) (d := chi ∪ ceq) hnode
        hilo (fun x hx => hx.elim (hhashi x) (hhaseq x)) (fun hmem => hmem.elim hihi hieq)
        (disjoint_union_left.mpr ⟨hlohi.symm, hloeq.symm⟩)
      obtain ⟨hdhi, hdeq⟩ := disjoint_union_left.mp hdisj
      refine ⟨table', _, hrun, .node hbi hpos hnode' hleaf hk'
        (heq.congr fun x hx => hsame x (.inr hx)) htree
        (hhi.congr fun x hx => hsame x (.inl hx)) hdhi.symm hdeq.symm hhieq, ?_⟩
      simpa only [union_assoc] using hupdates'
    · subst hk
      rw [if_neg (lt_irrefl _), if_neg (lt_irrefl _), if_neg (lt_irrefl _), if_neg (lt_irrefl _)]
      cases s with
      | nil =>
        -- what followed the node is dropped
        rw [if_pos rfl]
        obtain ⟨node', cr', hset⟩ := addResult_spec (c := ∅) hpool hnode
          (fun h => absurd (hleaf.symm.trans h) (by simp)) fun x hx => absurd hx (notMem_empty x)
        obtain ⟨htree, hupdates⟩ := hset.treeAt hbi hpos hlo hhi hhaslo hhashi hlohi
          (disjoint_empty _) (disjoint_empty _)
        rw [hk'] at htree
        refine ⟨_, _, rfl, htree, hupdates.mono (insert_subset_insert ?_)⟩
        exact union_subset_union_right _ (empty_subset _)
      | cons k₂ s =>
        rw [if_neg (by simp), if_neg (by simp [hleaf]), node_eq hnode]
        obtain ⟨table', ceq', hrun, htree, hupdates⟩ := iheq (k := k₂) (s := s) hhaseq
          hi fuel (by rw [length_cons] at hfuel; omega) (some (i, .eqkid))
        obtain ⟨hnode', hsame, hdisj, hupdates'⟩ := hupdates.below (l := .eqkid) (d := clo ∪ chi)
          hnode hieq (fun x hx => hx.elim (hhaslo x) (hhashi x)) (fun hmem => hmem.elim hilo hihi)
          (disjoint_union_left.mpr ⟨hloeq, hhieq⟩)
        obtain ⟨hdlo, hdhi⟩ := disjoint_union_left.mp hdisj
        refine ⟨table', _, hrun, .node hbi hpos hnode' hleaf hk' htree
          (hlo.congr fun x hx => hsame x (.inl hx)) (hhi.congr fun x hx => hsame x (.inr hx)) hlohi
          hdlo hdhi, ?_⟩
        simpa only [union_comm ceq, union_comm ceq'] using hupdates'
    · rw [if_neg hk.not_gt, if_pos hk, if_neg hk.not_gt, if_pos hk]
      obtain ⟨table', chi', hrun, htree, hupdates⟩ :=
        ihhi (k := k) (s := s) hhashi hi fuel (by omega) (some (i, .hikid))
      obtain ⟨hnode', hsame, hdisj, hupdates'⟩ :=
        hupdates.below (l := .hikid) (d := clo ∪ ceq) hnode
        hihi (fun x hx => hx.elim (hhaslo x) (hhaseq x)) (fun hmem => hmem.elim hilo hieq)
        (disjoint_union_left.mpr ⟨hlohi, hhieq.symm⟩)
      obtain ⟨hdlo, hdeq⟩ := disjoint_union_left.mp hdisj
      refine ⟨table', _, hrun, .node hbi hpos hnode' hleaf hk'
        (heq.congr fun x hx => hsame x (.inr hx))
        (hlo.congr fun x hx => hsame x (.inl hx)) htree hdlo hloeq hdeq.symm, ?_⟩
      simpa only [union_assoc, union_left_comm chi, union_left_comm chi'] using hupdates'

end Loop

/-! ### Tables -/

/-- The offset of the root. -/
def ComposeTable.root (table : ComposeTable) : ℕ := if table.nodes.length = 1 then 0 else 1

/-- **A table that holds a tree.** -/
structure Stores (table : ComposeTable) (t : Tst Keysym ComposeResult) : Prop where
  ordered : t.Ordered
  tree : ∃ c, TreeAt table 1 table.root t c ∧ ∀ x ∈ c, table.Has x
  dummy : table.nodes[0]? = some dummyNode
  nul : table.utf8[0]? = some 0

theorem stores_empty : Stores {} .nil :=
  ⟨trivial, ⟨∅, .nil, fun x hx => absurd hx (notMem_empty x)⟩, rfl, rfl⟩

/-- The first string is not that of a leaf. -/
theorem TreeAt.zero_notMem (h : TreeAt table b i t c) : Cell.byte 0 ∉ c := by
  induction h with
  | nil => exact notMem_empty _
  | leaf _ _ _ _ _ hr _ _ _ _ _ ihlo ihhi =>
    rintro (hmem | (hmem | hmem) | hmem)
    · cases hmem
    · exact ihlo hmem
    · exact ihhi hmem
    · cases hr with
      | noString => exact hmem
      | string hne =>
        obtain ⟨j, hj, hle, -⟩ := hmem
        cases hj
        omega
  | node _ _ _ _ _ _ _ _ _ _ _ iheq ihlo ihhi =>
    rintro (hmem | (hmem | hmem) | hmem)
    · cases hmem
    · exact ihlo hmem
    · exact ihhi hmem
    · exact iheq hmem

/-- **Adding a production is an insertion**, unless the table is full. -/
theorem stores_addProduction (h : Stores table t) {production : Production}
    {s : List Keysym} (hlhs : production.lhs = k :: s) :
    ∃ table', addProduction table production = some table' ∧
      Stores table' (if maxComposeNodes ≤ table.nodes.length + production.lhs.length then t
        else t.insert production.result k s) := by
  obtain ⟨hordered, ⟨c, htree, hhas⟩, hdummy, hnul⟩ := h
  unfold addProduction
  split
  · exact ⟨table, rfl, hordered, ⟨c, htree, hhas⟩, hdummy, hnul⟩
  have hn : 0 < table.nodes.length := (List.getElem?_eq_some_iff.mp hdummy).1
  have hpool : 0 < table.utf8.length := (List.getElem?_eq_some_iff.mp hnul).1
  rw [hlhs]
  obtain ⟨table', c', hrun, htree', hupdates⟩ := addLoop_spec production (k := k) (s := s)
    htree hhas hpool hn (by omega) (table.nodes.length + (k :: s).length)
    (by rw [length_cons]; omega) none
  have hlinked : table.linked table.root none = table := by
    unfold linked
    split <;> rfl
  rw [hlinked] at hupdates
  have hroot : (if table.root = 0 then table.nodes.length else table.root) = 1 := by
    unfold root
    split
    · simpa using ‹table.nodes.length = 1›
    · simp
  rw [hroot] at htree'
  have hgrown : table'.nodes.length ≠ 1 := by
    have := htree'.lt_length Tst.insert_ne_nil
    omega
  refine ⟨table', hrun, hordered.insert _ _ _, ⟨c', ?_, hupdates.has⟩, ?_, ?_⟩
  · rwa [root, if_neg hgrown]
  · refine (hupdates.same (.node 0) hn fun hmem => ?_).trans hdummy
    exact absurd (htree.le_of_mem hmem) (by omega)
  · exact (hupdates.same (.byte 0) hpool htree.zero_notMem).trans hnul

end Xkbcommon
