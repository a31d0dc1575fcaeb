/-
# Reading page by page

A listing that a server gives out in pages is read in a loop: ask for the next
page, look at it, and either finish or go on, up to a number of pages. Each
reader has its own rule for when it is finished. What a reader knows at the end
is what every page before the last one kept true, and what the last page added.
-/

import NixConfig.Semantics.Fallible
import NixConfig.Semantics.Traced

namespace NixConfig.Semantics

variable {ρ ε π σ β : Type}

/-- Whether a loop goes on, and with what. -/
inductive Progress (σ β : Type)
  | more (state : σ)
  | done (result : β)

/-- Ask a server for one page after the other, for at most `budget` pages. -/
def readPages (server : ρ → Except ε π) (request : Nat → ρ)
    (round : Nat → σ → π → Except ε (Progress σ β)) (exhausted : ε) :
    Nat → Nat → σ → Traced ρ ε β
  | 0, _, _ => .quiet (.error exhausted)
  | budget + 1, number, state => do
    let page ← Traced.call (request number) (server (request number))
    let progress ← Traced.quiet (round number state page)
    match progress with
    | .done result => .quiet (.ok result)
    | .more next => readPages server request round exhausted budget (number + 1) next

section Rule

variable {server : ρ → Except ε π} {request : Nat → ρ}
  {round : Nat → σ → π → Except ε (Progress σ β)} {exhausted : ε}

/-- One round of a loop that succeeds. -/
theorem readPages_succ {budget number : Nat} {state : σ} {result : β}
    (hread : (readPages server request round exhausted (budget + 1) number state).result =
      .ok result) :
    ∃ page progress, server (request number) = .ok page ∧
      round number state page = .ok progress ∧
      match progress with
      | .done _ =>
        (readPages server request round exhausted (budget + 1) number state).calls =
          [request number]
      | .more next =>
        (readPages server request round exhausted budget (number + 1) next).result = .ok result ∧
        (readPages server request round exhausted (budget + 1) number state).calls =
          request number ::
            (readPages server request round exhausted budget (number + 1) next).calls := by
  rw [readPages] at hread ⊢
  obtain ⟨page, hpage, hrest⟩ := Traced.result_bind_eq_ok.mp hread
  obtain ⟨progress, hround, hrest⟩ := Traced.result_bind_eq_ok.mp hrest
  rw [Traced.calls_bind_of_ok hpage, Traced.calls_bind_of_ok hround]
  refine ⟨page, progress, hpage, hround, ?_⟩
  cases progress with
  | done final => rfl
  | more next => exact ⟨hrest, rfl⟩

/-- The rule for a loop over pages: what holds at first is kept by every page after which
the loop goes on, and gives what is known at the end with the page that ends it. -/
theorem readPages_rule (inv : List π → σ → Prop) {post : List π → Prop} {budget : Nat} {init : σ}
    {result : β} (hinit : inv [] init)
    (hround : ∀ done state page progress, inv done state →
      server (request (done.length + 1)) = .ok page →
      round (done.length + 1) state page = .ok progress →
      match progress with
      | .done _ => post (done ++ [page])
      | .more next => inv (done ++ [page]) next)
    (hread : (readPages server request round exhausted budget 1 init).result = .ok result) :
    ∃ pages, (readPages server request round exhausted budget 1 init).calls.map server =
      pages.map .ok ∧ post pages := by
  -- The pages that are done stay fixed while the rest of the loop is taken apart.
  suffices hloop : ∀ budget done state, inv done state →
      (readPages server request round exhausted budget (done.length + 1) state).result =
        .ok result →
      ∃ pages, (readPages server request round exhausted budget (done.length + 1)
        state).calls.map server = pages.map .ok ∧ post (done ++ pages) from
    hloop budget [] init hinit hread
  intro budget
  induction budget with
  | zero =>
    intro done state _ hread
    cases hread
  | succ budget ih =>
    intro done state hinv hread
    obtain ⟨page, progress, hpage, hprogress, hrest⟩ := readPages_succ hread
    have hnext := hround done state page progress hinv hpage hprogress
    cases progress with
    | done final =>
      refine ⟨[page], ?_, hnext⟩
      rw [hrest, List.map_singleton, hpage]
      rfl
    | more next =>
      obtain ⟨hrest, hcalls⟩ := hrest
      have hlength : (done ++ [page]).length = done.length + 1 := by simp
      obtain ⟨pages, hmore, hpost⟩ := ih (done ++ [page]) next hnext (hlength.symm ▸ hrest)
      rw [List.append_assoc] at hpost
      refine ⟨page :: pages, ?_, hpost⟩
      rw [hlength] at hmore
      rw [hcalls, List.map_cons, hmore, hpage]
      rfl

end Rule

end NixConfig.Semantics
