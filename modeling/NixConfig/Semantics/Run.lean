/-
# Runs with a past

A run of a labelled transition system is read together with its past: every
event that happened, most recent first, each beside the state it found. Laws
that speak of what was once recorded, called or seen are then laws about a
list, and no ghost variable has to be added to the state.

The rules below are the only inductions over runs that a development needs: a
law that holds at the start and that every step keeps holds in every state
reached, also when only some steps are admitted.
-/

import Mathlib.Data.List.Basic

namespace NixConfig.Semantics

variable {σ ε : Type*}

/-- `Reaches step init past s`: from `init`, the events of `past` (most recent
first, each with the state it found) lead to `s`. -/
inductive Reaches (step : σ → ε → σ → Prop) (init : σ) : List (σ × ε) → σ → Prop
  | start : Reaches step init [] init
  | next {past : List (σ × ε)} {s s' : σ} {event : ε} :
      Reaches step init past s → step s event s' → Reaches step init ((s, event) :: past) s'

namespace Reaches

variable {step : σ → ε → σ → Prop} {init s : σ} {past : List (σ × ε)}

/-- A law of past and state that every step keeps, given that every event so
far was admitted, holds wherever only admitted events happened. -/
theorem invariant_of_admitted (admitted : σ → ε → Prop) (law : List (σ × ε) → σ → Prop)
    (hrun : Reaches step init past s)
    (hadmitted : ∀ entry ∈ past, admitted entry.1 entry.2)
    (hstart : law [] init)
    (hstep : ∀ {past s event s'}, Reaches step init past s → law past s → admitted s event →
      step s event s' → law ((s, event) :: past) s') :
    law past s := by
  induction hrun with
  | start => exact hstart
  | next hrun hnext ih =>
    have hlast := hadmitted _ List.mem_cons_self
    have hearlier := fun entry hmem => hadmitted entry (List.mem_cons_of_mem _ hmem)
    exact hstep hrun (ih hearlier) hlast hnext

/-- A law of past and state that every step keeps holds in every state
reached. -/
theorem invariant (law : List (σ × ε) → σ → Prop) (hrun : Reaches step init past s)
    (hstart : law [] init)
    (hstep : ∀ {past s event s'}, Reaches step init past s → law past s → step s event s' →
      law ((s, event) :: past) s') :
    law past s :=
  invariant_of_admitted (fun _ _ => True) law hrun (fun _ _ => trivial) hstart
    fun hrun hlaw _ hnext => hstep hrun hlaw hnext

/-- The frame rule: what belongs to a key is as it was at the start, now and all the way,
if no event was about that key. -/
theorem frame {κ τ : Type*} (about : ε → κ) (read : σ → κ → τ) {key : κ}
    (hrun : Reaches step init past s) (hother : ∀ entry ∈ past, key ≠ about entry.2)
    (hstep : ∀ {s event s'}, step s event s' → key ≠ about event → read s' key = read s key) :
    read s key = read init key ∧ ∀ entry ∈ past, read entry.1 key = read init key := by
  induction hrun with
  | start => exact ⟨rfl, fun _ hmem => by cases hmem⟩
  | next _ hnext ih =>
    rw [List.forall_mem_cons] at hother ⊢
    obtain ⟨hnow, hpast⟩ := ih hother.2
    exact ⟨(hstep hnext hother.1).trans hnow, hnow, hpast⟩

/-- The past of a run can be cut at any of its entries: what is older led to
the state the event found. -/
theorem split {later earlier : List (σ × ε)} {found : σ} {event : ε}
    (hrun : Reaches step init (later ++ (found, event) :: earlier) s) :
    Reaches step init earlier found ∧ ∃ after, step found event after := by
  induction later generalizing s with
  | nil =>
    cases hrun with
    | next hrun hnext => exact ⟨hrun, _, hnext⟩
  | cons entry later ih =>
    cases hrun with
    | next hrun hnext => exact ih hrun

/-- A system whose every step is one step of another system, or none, as seen
through `view`, reaches only what the other one reaches. -/
theorem simulate {τ δ : Type*} {step' : τ → δ → τ → Prop} (view : σ → τ)
    (hrun : Reaches step init past s)
    (hstep : ∀ {past s event s'}, Reaches step init past s → step s event s' →
      view s' = view s ∨ ∃ event', step' (view s) event' (view s')) :
    ∃ past', Reaches step' (view init) past' (view s) := by
  induction hrun with
  | start => exact ⟨[], .start⟩
  | next hrun hnext ih =>
    obtain ⟨past', hpast⟩ := ih
    rcases hstep hrun hnext with hsame | ⟨event', hevent⟩
    · rw [hsame]
      exact ⟨past', hpast⟩
    · exact ⟨_, hpast.next hevent⟩

end Reaches

/-! ## Runs of a machine that computes its steps -/

/-- Feed events to a machine that may refuse them, extending `past`. -/
def execute (next : σ → ε → Option σ) (past : List (σ × ε)) (s : σ) :
    List ε → Option (List (σ × ε) × σ)
  | [] => some (past, s)
  | event :: rest =>
    match next s event with
    | none => none
    | some s' => execute next ((s, event) :: past) s' rest

/-- What a machine computes is a run, when each of its steps is one. -/
theorem Reaches.execute {step : σ → ε → σ → Prop} {next : σ → ε → Option σ} {init : σ}
    (hnext : ∀ s event s', next s event = some s' → step s event s') (events : List ε) :
    ∀ {past past' : List (σ × ε)} {s s' : σ}, Reaches step init past s →
      Semantics.execute next past s events = some (past', s') → Reaches step init past' s' := by
  induction events with
  | nil =>
    intro past past' s s' hrun hexecute
    cases hexecute
    exact hrun
  | cons event rest ih =>
    intro past past' s s' hrun hexecute
    unfold Semantics.execute at hexecute
    split at hexecute
    · cases hexecute
    rename_i middle hmiddle
    exact ih (hrun.next (hnext _ _ _ hmiddle)) hexecute

/-- A law of past and state that can be computed holds somewhere, if some events lead
there. -/
theorem Reaches.of_execute {next : σ → ε → Option σ} {init : σ} (events : List ε)
    {law : List (σ × ε) → σ → Prop} [∀ past s, Decidable (law past s)]
    (hexecute : (Semantics.execute next [] init events).any fun run => law run.1 run.2) :
    ∃ past s, Reaches (fun s event s' => next s event = some s') init past s ∧ law past s := by
  cases hrun : Semantics.execute next [] init events with
  | none =>
    rw [hrun] at hexecute
    cases hexecute
  | some run =>
    obtain ⟨past, s⟩ := run
    rw [hrun] at hexecute
    exact ⟨past, s, .execute (fun _ _ _ hnext => hnext) events .start hrun,
      of_decide_eq_true hexecute⟩

end NixConfig.Semantics
