/-
# Listings of directories

A listing says what there is below a directory, in the order in which a walk
comes by: a directory before what it holds, and the entries of one directory by
name. Whatever is listed lies in a directory that is listed before it.

A walk visits the entries in this order and stops at the first that fails. Files
that no visit objects to can be added to a listing without a walk taking another
course: what it finds is what it found before, and the files.
-/

import Mathlib.Data.List.Lex
import Mathlib.Data.List.Sort

namespace NixConfig.Data

variable {ν κ β γ ε : Type}

/-- What an entry of a directory is. -/
inductive ListedNode (β : Type)
  | directory
  | regular (info : β)
  | symlink
  | other

structure ListedEntry (ν β : Type) where
  /-- The names that lead to the entry. -/
  path : List ν
  node : ListedNode β

/-- The entries below a directory, in the order of a walk. -/
structure Listing [LinearOrder κ] (order : ν → κ) (β : Type) where
  entries : List (ListedEntry ν β)
  sorted : entries.Pairwise fun first second => first.path.map order < second.path.map order
  /-- Whatever is listed lies in a directory. -/
  closed : ∀ entry ∈ entries, entry.path ≠ [] ∧ (entry.path.dropLast ≠ [] →
    ∃ parent ∈ entries, parent.path = entry.path.dropLast ∧ parent.node = .directory)

namespace Listing

variable [LinearOrder κ] {order : ν → κ} {listing enlarged : Listing order β}

theorem nodup_path (listing : Listing order β) :
    (listing.entries.map ListedEntry.path).Nodup := by
  rw [List.Nodup, List.pairwise_map]
  exact listing.sorted.imp fun hlt hsame => hlt.ne (congrArg (List.map order) hsame)

/-- The directory of an entry comes before the entry. -/
theorem exists_parent_before {before after : List (ListedEntry ν β)} {entry : ListedEntry ν β}
    (hentries : listing.entries = before ++ entry :: after) (hparent : entry.path.dropLast ≠ []) :
    ∃ parent ∈ before, parent.path = entry.path.dropLast ∧ parent.node = .directory := by
  have hmem : entry ∈ listing.entries := hentries ▸ List.mem_append_right _ List.mem_cons_self
  obtain ⟨hpath, hclosed⟩ := listing.closed entry hmem
  obtain ⟨parent, hlisted, hname, hnode⟩ := hclosed hparent
  have hlt : parent.path.map order < entry.path.map order := by
    have hsplit : entry.path.map order =
        parent.path.map order ++ [order (entry.path.getLast hpath)] := by
      rw [hname, ← List.map_singleton, ← List.map_append, List.dropLast_append_getLast hpath]
    have hlast : List.Lex (· < ·) [] [order (entry.path.getLast hpath)] := .nil
    have hlex := hlast.append_left (· < ·) (parent.path.map order)
    rw [List.append_nil, ← hsplit] at hlex
    exact hlex
  have hsorted := listing.sorted
  rw [hentries, List.pairwise_append, List.pairwise_cons] at hsorted
  rw [hentries, List.mem_append, List.mem_cons] at hlisted
  rcases hlisted with hbefore | rfl | hafter
  · exact ⟨parent, hbefore, hname, hnode⟩
  · exact absurd hlt (lt_irrefl _)
  · exact absurd hlt (hsorted.2.1.1 parent hafter).not_gt

/-- A listing with more entries is the listing, once they are left out. -/
theorem filter_eq_of_perm [DecidableEq ν] {added : List (ListedEntry ν β)}
    (hperm : enlarged.entries.Perm (listing.entries ++ added)) :
    enlarged.entries.filter (fun entry => entry.path ∉ added.map ListedEntry.path) =
      listing.entries := by
  have hnodup : (listing.entries.map ListedEntry.path ++ added.map ListedEntry.path).Nodup := by
    rw [← List.map_append]
    exact (hperm.map _).nodup_iff.mp enlarged.nodup_path
  have hfiltered : (listing.entries ++ added).filter
      (fun entry => entry.path ∉ added.map ListedEntry.path) = listing.entries := by
    rw [List.filter_append, List.filter_eq_self.mpr, List.filter_eq_nil_iff.mpr, List.append_nil]
    · intro entry hmem
      simpa using ⟨entry, hmem, rfl⟩
    · intro entry hmem
      have hdisjoint := List.disjoint_of_nodup_append hnodup (List.mem_map_of_mem hmem)
      exact decide_eq_true hdisjoint
  have hperm' := hperm.filter fun entry => entry.path ∉ added.map ListedEntry.path
  rw [hfiltered] at hperm'
  -- Both sides are in the order of a walk, and that determines them.
  refine hperm'.eq_of_pairwise (fun first second _ _ hlt hgt => ?_)
    (enlarged.sorted.sublist List.filter_sublist) listing.sorted
  exact absurd hgt hlt.not_gt

end Listing

/-! ## Walks -/

/-- Visit entries until a visit fails, and collect what the visits find. -/
def walk {α : Type} (visit : α → Except ε (Option γ)) : List α → Except ε (List γ)
  | [] => .ok []
  | entry :: rest => do
    let found ← visit entry
    let others ← walk visit rest
    pure (found.toList ++ others)

section Walk

variable {α : Type} {visit : α → Except ε (Option γ)} {keep : α → Bool} {kept : γ → Bool}

/-- Entries can be left out of a walk if none of them is the first to fail. -/
theorem walk_filter {entries : List α}
    (hfound : ∀ entry ∈ entries, ∀ result, visit entry = .ok (some result) →
      kept result = keep entry)
    (hpass : ∀ before entry after, entries = before ++ entry :: after → keep entry = false →
      (∀ earlier ∈ before, ∃ result, visit earlier = .ok result) →
      ∃ result, visit entry = .ok result) :
    walk visit (entries.filter keep) = (walk visit entries).map (List.filter kept) := by
  suffices hloop : ∀ before rest, entries = before ++ rest →
      (∀ earlier ∈ before, ∃ result, visit earlier = .ok result) →
      walk visit (rest.filter keep) = (walk visit rest).map (List.filter kept) from
    hloop [] entries rfl (by simp)
  intro before rest
  induction rest generalizing before with
  | nil =>
    intro _ _
    rfl
  | cons entry rest ih =>
    intro hsplit hearlier
    cases hvisit : visit entry with
    | error err =>
      have hkeep : keep entry = true := by
        by_contra hdrop
        obtain ⟨result, hresult⟩ :=
          hpass before entry rest hsplit (Bool.eq_false_of_not_eq_true hdrop) hearlier
        rw [hvisit] at hresult
        cases hresult
      rw [List.filter_cons_of_pos hkeep, walk, walk, hvisit]
      rfl
    | ok result =>
      have hrest := ih (before ++ [entry]) (by simpa using hsplit) (by
        intro earlier hmem
        rcases List.mem_append.mp hmem with hmem | hmem
        · exact hearlier earlier hmem
        · exact ⟨result, List.mem_singleton.mp hmem ▸ hvisit⟩)
      have hkept : ∀ found ∈ result.toList, kept found = keep entry := by
        intro found hmem
        rw [Option.mem_toList.mp hmem] at hvisit
        exact hfound entry (hsplit ▸ by simp) found hvisit
      cases hkeep : keep entry with
      | true =>
        rw [List.filter_cons_of_pos hkeep, walk, walk, hvisit, hrest]
        have hall : result.toList.filter kept = result.toList :=
          List.filter_eq_self.mpr fun found hmem => (hkept found hmem).trans hkeep
        cases walk visit rest with
        | error err => rfl
        | ok others => exact congrArg Except.ok (by rw [List.filter_append, hall])
      | false =>
        rw [List.filter_cons_of_neg (by simp [hkeep]), walk, hvisit, hrest]
        have hnone : result.toList.filter kept = [] :=
          List.filter_eq_nil_iff.mpr fun found hmem => by simp [hkept found hmem, hkeep]
        cases walk visit rest with
        | error err => rfl
        | ok others => exact congrArg Except.ok (by rw [List.filter_append, hnone]; rfl)

/-- What a walk found, a visit found. -/
theorem exists_visit_of_walk {entries : List α} {results : List γ} {result : γ}
    (hwalk : walk visit entries = .ok results) (hmem : result ∈ results) :
    ∃ entry ∈ entries, visit entry = .ok (some result) := by
  induction entries generalizing results with
  | nil =>
    cases hwalk
    cases hmem
  | cons entry rest ih =>
    cases hvisit : visit entry with
    | error err =>
      rw [walk, hvisit] at hwalk
      cases hwalk
    | ok found =>
      cases hothers : walk visit rest with
      | error err =>
        rw [walk, hvisit, hothers] at hwalk
        cases hwalk
      | ok others =>
        rw [walk, hvisit, hothers] at hwalk
        cases hwalk
        rcases List.mem_append.mp hmem with hmem | hmem
        · exact ⟨entry, List.mem_cons_self, Option.mem_toList.mp hmem ▸ hvisit⟩
        · obtain ⟨other, hother, hresult⟩ := ih hothers hmem
          exact ⟨other, List.mem_cons_of_mem _ hother, hresult⟩

end Walk

end NixConfig.Data
