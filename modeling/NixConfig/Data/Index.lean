/-
# Indexes

An index over a list of rows is what a loop that stores every row under its key
leaves behind: of the rows under one key, the last. Rows of two lists that
correspond position by position are therefore found together.
-/

import Mathlib.Data.List.Induction
import Mathlib.Data.List.Nodup

namespace NixConfig.Data

variable {ρ τ κ : Type*} [DecidableEq κ]

/-- The last row under a key. -/
def index (key : ρ → κ) (rows : List ρ) (k : κ) : Option ρ :=
  rows.reverse.find? fun row => key row = k

variable {key : ρ → κ} {key' : τ → κ} {rows : List ρ} {k : κ} {row : ρ}

theorem key_of_index (hrow : index key rows k = some row) : key row = k := by
  simpa using List.find?_some hrow

theorem mem_of_index (hrow : index key rows k = some row) : row ∈ rows :=
  List.mem_reverse.mp (List.mem_of_find?_eq_some hrow)

/-- Where keys are distinct, the row under a key is the only one. -/
theorem eq_of_index (hnodup : (rows.map key).Nodup) (hrow : index key rows k = some row)
    {other : ρ} (hmem : other ∈ rows) (hkey : key other = k) : other = row :=
  List.inj_on_of_nodup_map hnodup hmem (mem_of_index hrow) (hkey.trans (key_of_index hrow).symm)

/-- Where keys are distinct, every row is found. -/
theorem index_of_mem (hnodup : (rows.map key).Nodup) (hmem : row ∈ rows) :
    index key rows (key row) = some row := by
  have hfound : (index key rows (key row)).isSome = true :=
    List.find?_isSome.mpr ⟨row, List.mem_reverse.mpr hmem, by simp⟩
  obtain ⟨found, hindex⟩ := Option.isSome_iff_exists.mp hfound
  rw [hindex, eq_of_index hnodup hindex hmem rfl]

/-! ## Corresponding lists -/

section Forall₂

variable {α β : Type*} {related : α → β → Prop} {left : List α} {right : List β}

theorem exists_left_of_forall₂ (hrelated : List.Forall₂ related left right) {b : β}
    (hmem : b ∈ right) : ∃ a ∈ left, related a b := by
  induction hrelated with
  | nil => cases hmem
  | cons hfirst hrest ih =>
    rcases List.mem_cons.mp hmem with rfl | hmem
    · exact ⟨_, List.mem_cons_self, hfirst⟩
    · obtain ⟨a, ha, hrelated⟩ := ih hmem
      exact ⟨a, List.mem_cons_of_mem _ ha, hrelated⟩

theorem exists_right_of_forall₂ (hrelated : List.Forall₂ related left right) {a : α}
    (hmem : a ∈ left) : ∃ b ∈ right, related a b :=
  exists_left_of_forall₂ hrelated.flip hmem

end Forall₂

/-! ## Association lists -/

section Lookup

variable {α β : Type*} [BEq α] [LawfulBEq α] {entries : List (α × β)} {key : α} {value : β}

theorem not_mem_keys_of_lookup (hnone : ¬(entries.lookup key).isSome = true) :
    key ∉ entries.map Prod.fst := by
  rw [Option.not_isSome_iff_eq_none, List.lookup_eq_none_iff] at hnone
  intro hmem
  obtain ⟨entry, hentry, rfl⟩ := List.mem_map.mp hmem
  simpa using hnone entry hentry

theorem mem_of_lookup (hlookup : entries.lookup key = some value) : (key, value) ∈ entries := by
  obtain ⟨before, after, rfl, -⟩ := List.lookup_eq_some_iff.mp hlookup
  simp

end Lookup

end NixConfig.Data
