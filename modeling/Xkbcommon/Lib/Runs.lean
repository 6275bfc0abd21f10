import Mathlib.Data.List.Induction
import Mathlib.Data.List.Infix

/-!
# Runs and folds

A run of a deterministic system is a left fold of its step function over the events. A
condition on its events may mention what precedes them (`Runs.History`), and is decided by a
look at every prefix. A loop over indices treats each index on its own
(`Runs.foldl_pointwise`).
-/

namespace Runs

open List

variable {σ ε ι α : Type*}

/-- A condition on the next event of a run, met by every event given what precedes it. -/
def History (ok : List ε → ε → Prop) (es : List ε) : Prop :=
  ∀ pre e, pre ++ [e] <+: es → ok pre e

variable {es : List ε} {ok : List ε → ε → Prop} {s : σ}

theorem History.of_append {es' : List ε} (h : History ok (es ++ es')) : History ok es :=
  fun pre e hpre => h pre e (hpre.trans (prefix_append es es'))

theorem History.last {e : ε} (h : History ok (es ++ [e])) : ok es e := h es e (prefix_refl _)

instance [∀ pre e, Decidable (ok pre e)] : Decidable (History ok es) :=
  decidable_of_iff
    ((es.inits.all fun l => l.getLast?.all fun e => decide (ok l.dropLast e)) = true) <| by
    simp only [List.all_eq_true, Option.all_eq_true, decide_eq_true_eq, List.mem_inits]
    constructor
    · intro h pre e hpre
      simpa using h _ hpre e (by simp)
    · intro h l hl e he
      exact h _ e (by rwa [List.dropLast_append_getLast? e he])

/-- **A loop over indices that treats each index on its own**: every index that is
visited once changes once. -/
theorem foldl_pointwise [DecidableEq ι] {f : σ → ι → σ} {v : σ → ι → α} {g : α → α}
    (hself : ∀ s i, v (f s i) i = g (v s i)) (hother : ∀ s i j, j ≠ i → v (f s i) j = v s j)
    {l : List ι} (hl : l.Nodup) (i : ι) :
    v (l.foldl f s) i = if i ∈ l then g (v s i) else v s i := by
  induction l generalizing s with
  | nil => rfl
  | cons a l ih =>
    obtain ⟨ha, hl⟩ := nodup_cons.mp hl
    rw [foldl_cons, ih hl]
    by_cases h : i = a
    · rw [h, if_neg ha, if_pos mem_cons_self, hself]
    · rw [hother s a i h]
      simp [h]

/-- What every turn of a loop keeps, the loop keeps. -/
theorem foldl_keeps {f : σ → ε → σ} {v : σ → α} (h : ∀ s e, v (f s e) = v s) (l : List ε) :
    v (l.foldl f s) = v s := by
  induction l generalizing s with
  | nil => rfl
  | cons e l ih => rw [foldl_cons, ih, h]

end Runs
