/-
# Fallible computations that call out

A computation asks the outside for things, one call after the other, and stops
at the first failure. What it returns says nothing about the calls that it made
before, so they are kept beside the result. A call that was made was made by
one of the steps, after every step before it had succeeded.
-/

import Mathlib.Tactic.Common

namespace NixConfig.Semantics

variable {γ ε α β : Type}

/-- The calls of a computation, in order, and how it ended. -/
structure Traced (γ ε α : Type) where
  calls : List γ
  result : Except ε α

namespace Traced

/-- A step that makes no calls. -/
def quiet (result : Except ε α) : Traced γ ε α := ⟨[], result⟩

/-- A call, and the answer to it. -/
def call (made : γ) (answer : Except ε α) : Traced γ ε α := ⟨[made], answer⟩

protected def bind (first : Traced γ ε α) (next : α → Traced γ ε β) : Traced γ ε β :=
  match first.result with
  | .error failure => ⟨first.calls, .error failure⟩
  | .ok a => ⟨first.calls ++ (next a).calls, (next a).result⟩

instance : Monad (Traced γ ε) where
  pure a := quiet (.ok a)
  bind := Traced.bind

variable {made : γ} {a : α} {result : Except ε α} {b : β}

@[simp] theorem not_mem_calls_pure :
    made ∉ (pure a : Traced γ ε α).calls := List.not_mem_nil

variable {answer : Except ε α} {next : α → Traced γ ε β} {first : Traced γ ε α}

@[simp] theorem mem_calls_call {other : γ} :
    made ∈ (call other answer).calls ↔ made = other := List.mem_singleton

@[simp] theorem result_quiet :
    (quiet result : Traced γ ε α).result = result := rfl

@[simp] theorem result_call : (call made answer).result = answer :=
  rfl

/-- Two steps succeed if the first does and the second does after it. -/
theorem result_bind_eq_ok :
    (first >>= next).result = .ok b ↔ ∃ a, first.result = .ok a ∧ (next a).result = .ok b := by
  change (Traced.bind first next).result = .ok b ↔ _
  rw [Traced.bind]
  cases first.result with
  | error failure => simp
  | ok a => simp

/-- After a step that succeeds, the calls of the next one follow. -/
theorem calls_bind_of_ok (hok : first.result = .ok a) :
    (first >>= next).calls = first.calls ++ (next a).calls := by
  change (Traced.bind first next).calls = _
  rw [Traced.bind, hok]

/-- Two steps that succeed without a call. -/
theorem silent_bind (hok : (first >>= next).result = .ok b)
    (hsilent : (first >>= next).calls = []) :
    ∃ a, first.result = .ok a ∧ first.calls = [] ∧ (next a).result = .ok b ∧
      (next a).calls = [] := by
  obtain ⟨a, hfirst, hnext⟩ := result_bind_eq_ok.mp hok
  change (Traced.bind first next).calls = [] at hsilent
  rw [Traced.bind, hfirst] at hsilent
  obtain ⟨hquiet, hsilent⟩ := List.append_eq_nil_iff.mp hsilent
  exact ⟨a, hfirst, hquiet, hnext, hsilent⟩

/-- A call of two steps is one of the first, or one of the second after the first
succeeded. -/
theorem mem_calls_bind :
    made ∈ (first >>= next).calls ↔
      made ∈ first.calls ∨ ∃ a, first.result = .ok a ∧ made ∈ (next a).calls := by
  change made ∈ (Traced.bind first next).calls ↔ _
  rw [Traced.bind]
  cases first.result with
  | error failure => simp
  | ok a => simp

/-- A call after a step that makes none. -/
theorem mem_calls_quiet_bind :
    made ∈ ((quiet result : Traced γ ε α) >>= next).calls ↔
      ∃ a, result = .ok a ∧ made ∈ (next a).calls := by
  simp [mem_calls_bind, quiet]

end Traced

end NixConfig.Semantics
