/-
# Rolling windows over timed rows

Rows carry a time and are kept in its order. Trimming such a list to a window
keeps the rows after the start of the window and the last row before it, which
is where a difference over the window is measured from. What is kept is an end
of the list, so whatever holds of neighbouring rows still does; and rows with a
gap between them are few in a bounded time.
-/

import Mathlib.Algebra.Order.Field.Basic
import Mathlib.Data.List.Chain
import Mathlib.Tactic.Linarith

namespace NixConfig.Data

variable {α K : Type*} [LinearOrder K] (time : α → K)

/-- The last row that is not after the start of the window. -/
def baseline (start : K) (rows : List α) : Option α :=
  (rows.filter fun row => time row ≤ start).getLast?

/-- The rows of the window, behind the last row before it. -/
def trim (start : K) (rows : List α) : List α :=
  (baseline time start rows).toList ++ rows.filter fun row => start < time row

variable {time} {start : K} {rows : List α}

theorem mem_of_baseline {row : α} (hbaseline : baseline time start rows = some row) :
    row ∈ rows ∧ time row ≤ start := by
  simpa using List.mem_filter.mp (List.mem_of_getLast? hbaseline)

theorem baseline_eq_none : baseline time start rows = none ↔ ∀ row ∈ rows, start < time row := by
  simp [baseline]

/-- Trimming drops rows at the front only. -/
theorem trim_suffix (hsorted : rows.Pairwise fun first second => time first < time second) :
    trim time start rows <:+ rows := by
  induction rows with
  | nil => exact List.suffix_rfl
  | cons row rest ih =>
    rw [List.pairwise_cons] at hsorted
    have hrest := ih hsorted.2
    by_cases holder : time row ≤ start
    · rcases hbase : baseline time start rest with _ | last
      · -- The first row is the last before the window.
        have hnewer : rest.filter (fun row => start < time row) = rest :=
          List.filter_eq_self.mpr fun other hmem =>
            decide_eq_true (baseline_eq_none.mp hbase other hmem)
        have hfirst : baseline time start (row :: rest) = some row := by
          have hnone : rest.filter (fun row => time row ≤ start) = [] :=
            List.getLast?_eq_none_iff.mp hbase
          simp [baseline, holder, hnone]
        rw [trim, hfirst, List.filter_cons_of_neg (by simpa using holder), hnewer]
        exact List.suffix_rfl
      · have hlast : baseline time start (row :: rest) = some last := by
          rw [baseline, List.filter_cons_of_pos (by simpa using holder), List.getLast?_cons,
            ← baseline, hbase, Option.getD_some]
        rw [trim, hlast, List.filter_cons_of_neg (by simpa using holder), ← hbase]
        exact hrest.trans (List.suffix_cons _ _)
    · -- Every row is in the window.
      have hin : start < time row := lt_of_not_ge holder
      have hall : ∀ other ∈ row :: rest, start < time other :=
        List.forall_mem_cons.mpr ⟨hin, fun other hmem => hin.trans (hsorted.1 other hmem)⟩
      rw [trim, baseline_eq_none.mpr hall, List.filter_eq_self.mpr fun other hmem =>
        decide_eq_true (hall other hmem)]
      exact List.suffix_rfl

/-- Trimming keeps the last row. -/
theorem getLast?_trim (hsorted : rows.Pairwise fun first second => time first < time second) :
    (trim time start rows).getLast? = rows.getLast? := by
  obtain ⟨dropped, hsplit⟩ : trim time start rows <:+ rows := trim_suffix hsorted
  rcases htrim : trim time start rows with _ | ⟨row, rest⟩
  · -- Every row is on one side of the start, so only nothing trims to nothing.
    have hnone : baseline time start rows = none ∧ ∀ row ∈ rows, time row ≤ start := by
      simpa [trim] using htrim
    have hempty : rows = [] := by
      refine List.eq_nil_iff_forall_not_mem.mpr fun row hmem => ?_
      exact (baseline_eq_none.mp hnone.1 row hmem).not_ge (hnone.2 row hmem)
    rw [hempty]
  · rw [htrim] at hsplit
    rw [← hsplit, List.getLast?_append, List.getLast?_cons, Option.some_or]

/-- The row after the baseline is in the window. -/
theorem lt_of_trim {row : α} {rest : List α} (hbaseline : baseline time start rows = some row)
    (htrim : trim time start rows = row :: rest) : ∀ other ∈ rest, start < time other := by
  rw [trim, hbaseline, Option.toList_some, List.singleton_append] at htrim
  intro other hmem
  rw [← (List.cons.inj htrim).2] at hmem
  simpa using (List.mem_filter.mp hmem).2

/-- Rows with a gap between them, inside a half-open interval, are few. -/
theorem length_mul_lt {K : Type*} [Field K] [LinearOrder K] [IsStrictOrderedRing K] {time : α → K}
    {gap low high : K} {rows : List α}
    (hspaced : rows.IsChain fun first second => time first + gap ≤ time second)
    (hlow : ∀ row ∈ rows.head?, low < time row) (hhigh : ∀ row ∈ rows.getLast?, time row ≤ high)
    (hrows : rows ≠ []) : (rows.length : K) * gap < high - low + gap := by
  induction rows generalizing low with
  | nil => exact absurd rfl hrows
  | cons row rest ih =>
    have hrow := hlow row rfl
    cases rest with
    | nil =>
      have htop := hhigh row rfl
      simp only [List.length_singleton, Nat.cast_one, one_mul]
      linarith
    | cons next rest =>
      obtain ⟨hgap, hchain⟩ := List.isChain_cons_cons.mp hspaced
      -- The rest starts a gap later.
      have hlater : ∀ other ∈ (next :: rest).head?, low + gap < time other := by
        rintro other ⟨⟩
        linarith
      rw [List.getLast?_cons_cons] at hhigh
      have hbound := ih hchain hlater hhigh (List.cons_ne_nil _ _)
      rw [List.length_cons, Nat.cast_add, Nat.cast_one, add_mul, one_mul]
      linarith

end NixConfig.Data
