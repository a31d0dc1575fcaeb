/-
# Sorting by a key

A sorting routine permutes its items into the order of their keys. It need not be stable, so
items with one key may come in any order; items with distinct keys come in one order only,
whatever order they were in before.
-/

import Mathlib.Data.List.Sort

namespace NixConfig.Data

variable {α κ : Type*} [LinearOrder κ]

/-- A routine that sorts by a key. -/
structure Sorting (key : α → κ) where
  sort : List α → List α
  perm : ∀ items, (sort items).Perm items
  sorted : ∀ items, (sort items).Pairwise (key · ≤ key ·)

namespace Sorting

variable {key : α → κ} (sorting : Sorting key)

/-- Items with distinct keys are sorted in one way. -/
theorem sort_eq_of_perm {items others : List α} (hperm : items.Perm others)
    (hnodup : (items.map key).Nodup) : sorting.sort items = sorting.sort others := by
  have hsorted : (sorting.sort items).Perm (sorting.sort others) :=
    ((sorting.perm items).trans hperm).trans (sorting.perm others).symm
  refine hsorted.eq_of_pairwise (fun first second hfirst hsecond hle hge => ?_)
    (sorting.sorted items) (sorting.sorted others)
  refine List.inj_on_of_nodup_map hnodup ((sorting.perm items).mem_iff.mp hfirst) ?_
    (le_antisymm hle hge)
  exact hperm.mem_iff.mpr ((sorting.perm others).mem_iff.mp hsecond)

theorem pairwise_insertionSort (key : α → κ) (items : List α) :
    (items.insertionSort (key · ≤ key ·)).Pairwise (key · ≤ key ·) := by
  have : Std.Total (α := α) (key · ≤ key ·) := ⟨fun _ _ => le_total _ _⟩
  have : IsTrans α (key · ≤ key ·) := ⟨fun _ _ _ => le_trans⟩
  exact List.pairwise_insertionSort _ items

/-- Insertion sort. -/
def insertion (key : α → κ) : Sorting key where
  sort items := items.insertionSort (key · ≤ key ·)
  perm := List.perm_insertionSort _
  sorted := pairwise_insertionSort key

end Sorting

end NixConfig.Data
