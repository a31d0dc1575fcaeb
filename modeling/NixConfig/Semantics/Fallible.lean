/-
# Fallible computations

A computation that may fail is a chain of steps, and it succeeds only if every
step does. These rules take a successful chain apart, one step at a time.
-/

import Mathlib.Tactic.Common

namespace NixConfig.Semantics

variable {ε ε' α β : Type}

variable {b : β} {items : List α} {p : α → Except ε Bool}

theorem bind_eq_ok {first : Except ε α} {next : α → Except ε β} :
    (first >>= next) = .ok b ↔ ∃ a, first = .ok a ∧ next a = .ok b := by
  cases first <;> simp [bind, Except.bind]

/-- A check that stops the chain has passed. -/
theorem ite_error_eq_ok {failed : Prop} [Decidable failed] {failure : ε} {rest : Except ε β} :
    (if failed then .error failure else rest) = .ok b ↔ ¬ failed ∧ rest = .ok b := by
  split_ifs <;> simp_all

theorem map_eq_ok {value : Except ε α} {f : α → β} :
    f <$> value = .ok b ↔ ∃ a, value = .ok a ∧ f a = b := by
  cases value <;> simp [Functor.map, Except.map]

theorem mapError_eq_ok {value : Except ε α} {f : ε → ε'} {a : α} :
    value.mapError f = .ok a ↔ value = .ok a := by
  cases value <;> simp [Except.mapError]

/-- The rule for a loop: what holds at first, and is kept by every item, holds of the
result. -/
theorem foldlM_invariant {step : β → α → Except ε β} (inv : List α → β → Prop) {init result : β}
    (hinit : inv [] init) (hstep : ∀ done acc item next, inv done acc → step acc item = .ok next →
      inv (done ++ [item]) next) (hfold : items.foldlM step init = .ok result) :
    inv items result := by
  suffices hloop : ∀ rest done acc, inv done acc → rest.foldlM step acc = .ok result →
      inv (done ++ rest) result from hloop items [] init hinit hfold
  intro rest
  induction rest with
  | nil =>
    intro done acc hinv hfold
    cases hfold
    rwa [List.append_nil]
  | cons item rest ih =>
    intro done acc hinv hfold
    rw [List.foldlM_cons] at hfold
    obtain ⟨next, hnext, hrest⟩ := bind_eq_ok.mp hfold
    have happended := ih (done ++ [item]) next (hstep done acc item next hinv hnext) hrest
    rwa [List.append_assoc] at happended

/-- Items that leave the result of a loop as it is can be left out. -/
theorem foldlM_filter {step : β → α → Except ε β} {keep : α → Bool}
    (hskip : ∀ item ∈ items, keep item = false → ∀ acc, step acc item = .ok acc) (init : β) :
    (items.filter keep).foldlM step init = items.foldlM step init := by
  induction items generalizing init with
  | nil => rfl
  | cons item rest ih =>
    rw [List.forall_mem_cons] at hskip
    cases hkeep : keep item with
    | true =>
      rw [List.filter_cons_of_pos hkeep, List.foldlM_cons, List.foldlM_cons]
      exact congrArg (step init item >>= ·) (funext (ih hskip.2))
    | false =>
      rw [List.filter_cons_of_neg (by simp [hkeep]), List.foldlM_cons, hskip.1 hkeep]
      exact ih hskip.2 init

theorem forall₂_of_mapM {f : α → Option β} {results : List β}
    (hmap : items.mapM f = some results) :
    List.Forall₂ (fun result item => f item = some result) results items := by
  induction items generalizing results with
  | nil =>
    cases hmap
    exact .nil
  | cons item rest ih =>
    rw [List.mapM_cons] at hmap
    obtain ⟨first, hfirst, hmap⟩ := Option.bind_eq_some_iff.mp hmap
    obtain ⟨others, hothers, hmap⟩ := Option.bind_eq_some_iff.mp hmap
    cases hmap
    exact .cons hfirst (ih hothers)

/-- The results of a loop over items correspond to the items. -/
theorem mapM_eq_ok {f : α → Except ε β} {results : List β} (hmap : items.mapM f = .ok results) :
    List.Forall₂ (fun item result => f item = .ok result) items results := by
  induction items generalizing results with
  | nil =>
    cases hmap
    exact .nil
  | cons item rest ih =>
    rw [List.mapM_cons] at hmap
    obtain ⟨first, hfirst, hmap⟩ := bind_eq_ok.mp hmap
    obtain ⟨others, hothers, hmap⟩ := bind_eq_ok.mp hmap
    cases hmap
    exact .cons hfirst (ih hothers)

/-- A search that fails has refused every item. -/
theorem anyM_eq_false (hany : items.anyM p = .ok false) :
    ∀ a ∈ items, p a = .ok false := by
  induction items with
  | nil => simp
  | cons a rest ih =>
    rw [List.anyM_cons] at hany
    obtain ⟨found, hfound, hrest⟩ := bind_eq_ok.mp hany
    cases found with
    | true => cases hrest
    | false => exact List.forall_mem_cons.mpr ⟨hfound, ih hrest⟩

/-- A search that succeeds has found an item. -/
theorem anyM_eq_true (hany : items.anyM p = .ok true) :
    ∃ a ∈ items, p a = .ok true := by
  induction items with
  | nil => cases hany
  | cons a rest ih =>
    rw [List.anyM_cons] at hany
    obtain ⟨found, hfound, hrest⟩ := bind_eq_ok.mp hany
    cases found with
    | true => exact ⟨a, List.mem_cons_self, hfound⟩
    | false =>
      obtain ⟨b, hmem, hb⟩ := ih hrest
      exact ⟨b, List.mem_cons_of_mem a hmem, hb⟩

end NixConfig.Semantics
