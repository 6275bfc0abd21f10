import Mathlib.Algebra.Group.Nat.Defs
import Mathlib.Data.List.TakeWhile
import Mathlib.Data.Nat.Notation

/-!
# Compose tables

The table of `src/compose/table.h`, a ternary search tree whose nodes are kept in one array:
pointers are offsets into the array, and the offset 0, of a dummy leaf, is nil. The strings
of the leaves are offsets into an array of bytes that starts with an empty string.

* `Xkbcommon.addProduction` is `add_production` of `src/compose/parser.c`;
* `Xkbcommon.iteratorNew` and `Xkbcommon.iteratorNext` are the iterator of
  `src/compose/table.c`, with its stack of pending nodes.

A loop that follows pointers gets *fuel*, and the result is `none` if it runs out; the
arrays grow without limit, except for the number of nodes that `add_production` checks.
-/

namespace Xkbcommon

/-! ### The table -/

/-- `xkb_keysym_t`. -/
abbrev Keysym := ℕ

/-- `XKB_KEY_NoSymbol`. -/
def noSymbol : Keysym := 0

/-- `struct compose_node`. The views of the union share their words: `utf8` is the padding of
an internal node, and `word` is its `eqkid` or the keysym of a leaf. -/
structure ComposeNode where
  keysym : Keysym := noSymbol
  lokid : ℕ := 0
  hikid : ℕ := 0
  isLeaf : Bool := false
  /-- `leaf.utf8`, an offset into the strings; 0 without a string. -/
  utf8 : ℕ := 0
  word : ℕ := 0
  deriving DecidableEq, Repr, Inhabited

/-- `internal.eqkid`. -/
def ComposeNode.eqkid (node : ComposeNode) : ℕ := node.word

/-- `leaf.keysym`. -/
def ComposeNode.leafKeysym (node : ComposeNode) : Keysym := node.word

/-- The dummy node of `xkb_compose_table_new`. -/
def dummyNode : ComposeNode := { isLeaf := true }

/-- `struct xkb_compose_table`, as `xkb_compose_table_new` makes it. -/
structure ComposeTable where
  utf8 : List UInt8 := [0]
  nodes : List ComposeNode := [dummyNode]
  deriving DecidableEq, Repr, Inhabited

variable (table : ComposeTable) (offset : ℕ)

def ComposeTable.node : ComposeNode :=
  table.nodes.getD offset default

def ComposeTable.setNode (node : ComposeNode) : ComposeTable :=
  { table with nodes := table.nodes.set offset node }

/-- A string of C: the bytes before the first 0. -/
def cString (bytes : List UInt8) : List UInt8 := bytes.takeWhile (· != 0)

theorem cString_eq_self {s : List UInt8} (h : 0 ∉ s) : cString s = s :=
  List.takeWhile_eq_self_iff.mpr fun _ hc => bne_iff_ne.mpr fun heq => h (heq ▸ hc)

/-- The string at an offset. -/
def ComposeTable.string : List UInt8 :=
  cString (table.utf8.drop offset)

/-! ### Adding a production -/

/-- `COMPOSE_MAX_LHS_LEN`. -/
def composeMaxLhsLen : ℕ := 10

/-- `MAX_COMPOSE_NODES`. -/
def maxComposeNodes : ℕ := 2 ^ 23

/-- `struct production`, without the modifiers, which nothing reads: `lhs` has `len` keysyms,
and `has_keysym` and `has_string` say whether there is a value. -/
structure Production where
  lhs : List Keysym
  keysym : Option Keysym := none
  string : Option (List UInt8) := none
  deriving DecidableEq, Repr, Inhabited

/-- The pointers of a node. -/
inductive Link
  | lokid | hikid | eqkid
  deriving DecidableEq, Repr, Inhabited

def ComposeNode.setLink (node : ComposeNode) (offset : ℕ) : Link → ComposeNode
  | .lokid => { node with lokid := offset }
  | .hikid => { node with hikid := offset }
  | .eqkid => { node with word := offset }

/-- `*pptr = offset`, if there is a pointer. -/
def ComposeTable.setLink (pptr : Option (ℕ × Link)) (offset : ℕ) : ComposeTable :=
  match pptr with
  | none => table
  | some (parent, link) => table.setNode parent ((table.node parent).setLink offset link)

/-- Whether a leaf has the result of the production. -/
def sameResult (node : ComposeNode) (production : Production) : Bool :=
  (match production.string with
    | none => node.utf8 == 0
    | some string => node.utf8 != 0 && table.string node.utf8 == cString string) &&
  (match production.keysym with
    | none => node.leafKeysym == noSymbol
    | some keysym => node.leafKeysym != noSymbol && node.leafKeysym == keysym)

/-- `memcpy` to an offset of the strings. -/
def overwrite (bytes : List UInt8) (offset : ℕ) (string : List UInt8) : List UInt8 :=
  bytes.take offset ++ string ++ bytes.drop (offset + string.length)

/-- The strings with that of a leaf, and its offset: it replaces a longer one of the same leaf,
or is appended. -/
def setString (node : ComposeNode) : Option (List UInt8) → List UInt8 × ℕ
  | none => (table.utf8, 0)
  | some string =>
    if node.isLeaf ∧ node.utf8 ≠ 0 ∧ string.length ≤ (table.string node.utf8).length then
      (overwrite table.utf8 node.utf8 (string ++ [0]), node.utf8)
    else (table.utf8 ++ (string ++ [0]), table.utf8.length)

/-- The end of `add_production`: the node of the last keysym becomes a leaf. The `eqkid` of an
internal node, which is reset first, shares its word with the keysym. -/
def addResult (curr : ℕ) (production : Production) : ComposeTable :=
  let node := table.node curr
  if node.isLeaf ∧ sameResult table node production then table
  else
    let (bytes, utf8) := setString table node (production.string.map cString)
    { table with
      utf8 := bytes
      nodes := table.nodes.set curr
        { node with utf8 := utf8, word := production.keysym.getD noSymbol, isLeaf := true } }

/-- A new node at the end, to which the parent pointer is updated. -/
def newNode (pptr : Option (ℕ × Link)) (keysym : Keysym) : ComposeTable :=
  let linked := table.setLink pptr table.nodes.length
  { linked with nodes := linked.nodes ++ [{ keysym := keysym }] }

/-- The loop of `add_production`, from the keysyms that are left. -/
def addLoop (production : Production) :
    ℕ → ComposeTable → List Keysym → ℕ → Option (ℕ × Link) → Option ComposeTable
  | 0, _, _, _, _ => none
  | _, _, [], _, _ => none
  | fuel + 1, table, keysym :: rest, curr, pptr =>
    let (table, curr) :=
      if curr = 0 then (newNode table pptr keysym, table.nodes.length) else (table, curr)
    let node := table.node curr
    if keysym < node.keysym then
      addLoop production fuel table (keysym :: rest) node.lokid (some (curr, .lokid))
    else if node.keysym < keysym then
      addLoop production fuel table (keysym :: rest) node.hikid (some (curr, .hikid))
    else if rest = [] then some (addResult table curr production)
    else
      -- a sequence that is a prefix of this one is overridden
      let table := if node.isLeaf
        then table.setNode curr { node with word := 0, isLeaf := false } else table
      addLoop production fuel table rest (table.node curr).eqkid (some (curr, .eqkid))

/-- `add_production`. -/
def addProduction (production : Production) : Option ComposeTable :=
  if maxComposeNodes ≤ table.nodes.length + production.lhs.length then some table
  else
    addLoop production (table.nodes.length + production.lhs.length) table production.lhs
      (if table.nodes.length = 1 then 0 else 1) none

/-- Productions in the order of the file. -/
def addProductions (productions : List Production) (table : ComposeTable) : Option ComposeTable :=
  productions.foldlM addProduction table

/-! ### The iterator -/

/-- `struct xkb_compose_table_entry`. -/
structure ComposeTableEntry where
  sequence : List Keysym
  keysym : Keysym
  utf8 : List UInt8
  deriving DecidableEq, Repr, Inhabited

/-- `struct xkb_compose_table_iterator_pending_node`. -/
structure PendingNode where
  offset : ℕ
  processed : Bool
  deriving DecidableEq, Repr, Inhabited

/-- `struct xkb_compose_table_iterator`: the sequence of the current entry, and the stack of
pending nodes with its top first. -/
structure ComposeTableIterator where
  sequence : List Keysym := []
  pendingNodes : List PendingNode := []
  deriving DecidableEq, Repr, Inhabited

/-- The nodes to the left of a pending one are pushed. -/
def pushLeft (table : ComposeTable) : ℕ → ℕ → List PendingNode → Option (List PendingNode)
  | 0, _, _ => none
  | fuel + 1, offset, pending =>
    let lokid := (table.node offset).lokid
    if lokid = 0 then some pending
    else pushLeft table fuel lokid ({ offset := lokid, processed := false } :: pending)

/-- A pending node, with those to its left. -/
def pushPending (pending : List PendingNode) : Option (List PendingNode) :=
  pushLeft table table.nodes.length offset ({ offset := offset, processed := false } :: pending)

/-- `xkb_compose_table_iterator_new`. -/
def iteratorNew : Option ComposeTableIterator :=
  if table.nodes.length = 1 then some {}
  else (pushPending table 1 []).map fun pending => { pendingNodes := pending }

/-- The first loop of `xkb_compose_table_iterator_next`: processed nodes are removed, until one
has a right arrow or is not processed yet. -/
def dropProcessed (table : ComposeTable) :
    List Keysym → List PendingNode → Option ComposeTableIterator
  | sequence, [] => some { sequence := sequence, pendingNodes := [] }
  | sequence, pending :: rest =>
    if pending.processed then
      let hikid := (table.node pending.offset).hikid
      if hikid ≠ 0 then
        (pushPending table hikid rest).map fun nodes =>
          { sequence := sequence.dropLast, pendingNodes := nodes }
      else dropProcessed table sequence.dropLast rest
    else some { sequence := sequence, pendingNodes := pending :: rest }

/-- The second loop of `xkb_compose_table_iterator_next`: down arrows are followed to a leaf. -/
def followDown (table : ComposeTable) :
    ℕ → ComposeTableIterator → Option (ComposeTableIterator × Option ComposeTableEntry)
  | 0, _ => none
  | fuel + 1, iter =>
    match iter.pendingNodes with
    | [] => some (iter, none)
    | pending :: rest =>
      let node := table.node pending.offset
      let sequence := iter.sequence ++ [node.keysym]
      let processed := { pending with processed := true } :: rest
      if node.isLeaf then
        some ({ sequence := sequence, pendingNodes := processed },
          some
            { sequence := sequence
              keysym := node.leafKeysym
              utf8 := table.string node.utf8 })
      else
        (pushPending table node.eqkid processed).bind fun nodes =>
          followDown table fuel { sequence := sequence, pendingNodes := nodes }

/-- `xkb_compose_table_iterator_next`. -/
def iteratorNext (iter : ComposeTableIterator) :
    Option (ComposeTableIterator × Option ComposeTableEntry) :=
  (dropProcessed table iter.sequence iter.pendingNodes).bind (followDown table table.nodes.length)

/-- The entries that the iterator yields. -/
def iterate (table : ComposeTable) : ℕ → ComposeTableIterator → Option (List ComposeTableEntry)
  | 0, _ => none
  | fuel + 1, iter =>
    (iteratorNext table iter).bind fun
      | (_, none) => some []
      | (iter, some entry) => (iterate table fuel iter).map (entry :: ·)

/-- All entries of a table, from a new iterator to the end. -/
def composeTableEntries : Option (List ComposeTableEntry) :=
  (iteratorNew table).bind (iterate table (table.nodes.length + 1))

end Xkbcommon
