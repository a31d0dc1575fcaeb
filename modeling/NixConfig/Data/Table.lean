/-
# Tables under a primary key

A table is a list of rows no two of which share a primary key. Saving a row
replaces the row under its key in place, or appends it when the key is new, so
a table keeps the order in which its keys were first saved. The key is a
function of the row: a row read back under a key carries that key, and no law
has to say so.
-/

import Mathlib.Data.List.Nodup

namespace NixConfig.Data

variable {ρ κ : Type*}

/-- Rows no two of which share the primary key `key`. -/
structure Table (key : ρ → κ) where
  /-- The rows, in the order their keys were first saved. -/
  rows : List ρ
  /-- A primary key occurs once. -/
  nodup : (rows.map key).Nodup

namespace Table

variable {key : ρ → κ}

/-- The table without rows. -/
def empty : Table key := ⟨[], List.nodup_nil⟩

variable [DecidableEq κ]

/-- Replace the row under the key of `row`, or append it. -/
def put (key : ρ → κ) (row : ρ) : List ρ → List ρ
  | [] => [row]
  | head :: rest => if key head = key row then row :: rest else head :: put key row rest

variable {row : ρ} {k : κ} {table : Table key}

theorem mem_map_put {rows : List ρ} :
    k ∈ (put key row rows).map key ↔ k = key row ∨ k ∈ rows.map key := by
  induction rows with
  | nil => simp [put]
  | cons head rest ih =>
    by_cases hkey : key head = key row
    · simp [put, hkey]
    · simp only [put, hkey, if_false, List.map_cons, List.mem_cons, ih]
      tauto

theorem nodup_map_put {rows : List ρ} (hnodup : (rows.map key).Nodup) :
    ((put key row rows).map key).Nodup := by
  induction rows with
  | nil => simp [put]
  | cons head rest ih =>
    rw [List.map_cons, List.nodup_cons] at hnodup
    by_cases hkey : key head = key row
    · rw [put, if_pos hkey, List.map_cons, List.nodup_cons, ← hkey]
      exact hnodup
    · simp only [put, hkey, if_false, List.map_cons, List.nodup_cons]
      refine ⟨fun hmem => ?_, ih hnodup.2⟩
      rcases mem_map_put.mp hmem with heq | hmem
      · exact hkey heq
      · exact hnodup.1 hmem

/-- Save a row under its primary key. -/
def save (table : Table key) (row : ρ) : Table key :=
  ⟨put key row table.rows, nodup_map_put table.nodup⟩

/-- The row under a primary key. -/
def find (table : Table key) (k : κ) : Option ρ :=
  table.rows.find? fun row => key row = k

@[simp] theorem find_empty (k : κ) : (empty : Table key).find k = none := rfl

/-- The row read under a key carries that key. -/
theorem key_of_find (hfind : table.find k = some row) :
    key row = k := by
  simpa using List.find?_some hfind

theorem mem_of_find (hfind : table.find k = some row) :
    row ∈ table.rows :=
  List.mem_of_find?_eq_some hfind

private theorem find?_put (row : ρ) (k : κ) (rows : List ρ) :
    (put key row rows).find? (fun other => key other = k) =
      if k = key row then some row else rows.find? fun other => key other = k := by
  induction rows with
  | nil =>
    by_cases hk : k = key row
    · simp [put, hk]
    · simp [put, hk, Ne.symm hk]
  | cons head rest ih =>
    by_cases hkey : key head = key row
    · by_cases hk : k = key row
      · simp [put, hkey, hk]
      · simp [put, hkey, hk, Ne.symm hk]
    · by_cases hhead : key head = k
      · have hk : k ≠ key row := hhead ▸ hkey
        rw [put, if_neg hkey]
        simp [hhead, hk]
      · simp only [put, hkey, if_false, List.find?_cons, hhead, decide_false, ih]

/-- Saving a row changes what is read under its own key and nothing else. -/
theorem find_save (table : Table key) (row : ρ) (k : κ) :
    (table.save row).find k = if k = key row then some row else table.find k :=
  find?_put row k table.rows

@[simp] theorem find_save_self (table : Table key) (row : ρ) :
    (table.save row).find (key row) = some row := by
  rw [find_save, if_pos rfl]

theorem find_save_of_ne (table : Table key) (hne : k ≠ key row) :
    (table.save row).find k = table.find k := by
  rw [find_save, if_neg hne]

/-- Membership in the rows is being read under one's own key. -/
theorem mem_rows_iff :
    row ∈ table.rows ↔ table.find (key row) = some row := by
  refine ⟨fun hmem => ?_, mem_of_find⟩
  cases hfind : table.find (key row) with
  | none =>
    rw [find, List.find?_eq_none] at hfind
    simpa using hfind row hmem
  | some other =>
    have hsame := List.inj_on_of_nodup_map table.nodup (mem_of_find hfind) hmem (key_of_find hfind)
    rw [hsame]

theorem mem_save {other : ρ} :
    other ∈ (table.save row).rows ↔
      other = row ∨ (other ∈ table.rows ∧ key other ≠ key row) := by
  rw [mem_rows_iff, find_save, mem_rows_iff]
  by_cases hkey : key other = key row
  · rw [if_pos hkey]
    simp [hkey, eq_comm]
  · rw [if_neg hkey]
    have hne : other ≠ row := fun heq => hkey (by rw [heq])
    simp [hkey, hne]

/-- Delete the row under a key, if there is one. -/
def erase (table : Table key) (k : κ) : Table key :=
  ⟨table.rows.filter fun row => key row ≠ k,
    table.nodup.sublist (List.filter_sublist.map key)⟩

theorem mem_erase :
    row ∈ (table.erase k).rows ↔ row ∈ table.rows ∧ key row ≠ k := by
  simp [erase]

/-- Deleting changes what is read under the deleted key and nothing else. -/
theorem find_erase (table : Table key) (k other : κ) :
    (table.erase k).find other = if other = k then none else table.find other := by
  simp only [find, erase, List.find?_filter]
  by_cases hother : other = k
  · simp [hother]
  · rw [if_neg hother]
    congr 1
    funext row
    by_cases hkey : key row = other
    · simp [hkey, hother]
    · simp [hkey]

theorem find_eq_none :
    table.find k = none ↔ ∀ row ∈ table.rows, key row ≠ k := by
  simp [find]

end Table

end NixConfig.Data
