/-
# Extents of intervals

The extent of some intervals reaches from the least start to the greatest end. It is
computed by widening, one interval after the other, and intervals may be widened in
groups: the extent of everything is the extent of the extents.
-/

import Mathlib.Data.List.Induction
import Mathlib.Order.Bounds.Basic
import Mathlib.Order.MinMax

namespace NixConfig.Data

variable {α : Type*} [LinearOrder α]

/-- Widen what was seen so far by an interval. -/
def widen (seen : Option (α × α)) (interval : α × α) : Option (α × α) :=
  some (seen.elim interval fun extent => (min extent.1 interval.1, max extent.2 interval.2))

/-- The extent of some intervals, if there are any. -/
def extent (intervals : List (α × α)) : Option (α × α) := intervals.foldl widen none

variable {seen : Option (α × α)} {interval bounds : α × α} {intervals others : List (α × α)}

theorem widen_widen : widen (widen seen interval) bounds =
    widen seen (min interval.1 bounds.1, max interval.2 bounds.2) := by
  cases seen with
  | none => rfl
  | some extent => simp [widen, min_assoc, max_assoc]

/-- Widening by a group is widening by its extent. -/
theorem foldl_widen : intervals.foldl widen seen = (extent intervals).elim seen (widen seen) := by
  induction intervals using List.reverseRecOn with
  | nil => rfl
  | append_singleton rest interval ih =>
    have hextent : extent (rest ++ [interval]) = widen (extent rest) interval := by
      simp [extent]
    rw [List.foldl_append, List.foldl_cons, List.foldl_nil, ih, hextent]
    cases extent rest with
    | none => rfl
    | some bounds => exact widen_widen

theorem exists_extent (hne : intervals ≠ []) : ∃ bounds, extent intervals = some bounds := by
  obtain ⟨first, rest, rfl⟩ := List.exists_cons_of_ne_nil hne
  rw [extent, List.foldl_cons, foldl_widen]
  cases extent rest with
  | none => exact ⟨first, rfl⟩
  | some bounds => exact ⟨_, rfl⟩

/-- The extent reaches from the least start to the greatest end. -/
theorem extent_eq_some : extent intervals = some bounds ↔
    IsLeast {start | ∃ interval ∈ intervals, interval.1 = start} bounds.1 ∧
      IsGreatest {finish | ∃ interval ∈ intervals, interval.2 = finish} bounds.2 := by
  -- The extent has both, and both are unique.
  have hextent (first : α × α) (rest : List (α × α)) : ∃ bounds, extent (first :: rest) = some bounds ∧
      IsLeast {start | ∃ interval ∈ first :: rest, interval.1 = start} bounds.1 ∧
      IsGreatest {finish | ∃ interval ∈ first :: rest, interval.2 = finish} bounds.2 := by
    induction rest using List.reverseRecOn with
    | nil =>
      refine ⟨first, rfl, ?_⟩
      simp
    | append_singleton rest interval ih =>
      obtain ⟨bounds, hbounds, hleast, hgreatest⟩ := ih
      have hset (bound : α × α → α) : {b | ∃ i ∈ first :: (rest ++ [interval]), bound i = b} =
          {b | ∃ i ∈ first :: rest, bound i = b} ∪ {bound interval} := by
        ext b
        simp only [← List.cons_append, List.mem_append, List.mem_singleton, Set.mem_union,
          Set.mem_ofPred_eq, Set.mem_singleton_iff, or_and_right, exists_or, exists_eq_left]
        simp only [eq_comm]
      refine ⟨(min bounds.1 interval.1, max bounds.2 interval.2), ?_, ?_, ?_⟩
      · rw [← List.cons_append, extent, List.foldl_append, ← extent, hbounds]
        rfl
      · rw [hset]
        exact hleast.union isLeast_singleton
      · rw [hset]
        exact hgreatest.union isGreatest_singleton
  cases intervals with
  | nil => simp [extent, IsLeast]
  | cons first rest =>
    obtain ⟨found, hfound, hleast, hgreatest⟩ := hextent first rest
    rw [hfound, Option.some.injEq]
    constructor
    · rintro rfl
      exact ⟨hleast, hgreatest⟩
    · rintro ⟨hleast', hgreatest'⟩
      exact Prod.ext (hleast.unique hleast') (hgreatest.unique hgreatest')

end NixConfig.Data
