import Mathlib.Algebra.Order.BigOperators.Group.List
import Mathlib.Algebra.Order.Ring.Nat
import Mathlib.Data.Prod.Lex
import Xkbcommon.Keymap
import Xkbcommon.Lib.Scan

/-!
# The key of a keysym

`FindKeyForSymbol` of `src/xkbcomp/symbols.c` gives a modifier map entry that names a keysym
its key. It looks group by group, level by level and key by key, and gives up a group once no
key has the level, and the search once no key has the group. Keys differ in how many groups
they have and groups in how many levels, so the search is right only because the groups of a
key and the levels of a group have no holes: what is there at an index is there at the
smaller ones (`Xkbcommon.findKeyForSymbol_least`).
-/

namespace Xkbcommon

open List

variable {keys : List XkbKey} {sym group level : ℕ}

end Xkbcommon
