/-
# Planning a job

The scheduler reads a job, asks the service for a decision, and stores the
answer with `FinishPlanning`. The model call takes long, so the answer is for
the copy that was read, while operators, removals and the queue have moved the
row on. `Planner` is the store together with the copies whose answers are
outstanding, at most one a job; a restart loses all of them.
-/

import NixConfig.MediaRepair.Jobs.Agreement
import NixConfig.MediaRepair.Jobs.History

namespace NixConfig.MediaRepair.Repair

open Data Semantics Jobs

/-- What a service decided about a case. -/
structure Decision where
  data : RawMessage
  repair : Bool
  reason : String
  deriving DecidableEq, Repr

def hour : Duration := 60 * minute

/-- The loop of `planningDelay`, with the number of doublings left. -/
def doubleDelay : Nat → Duration → Duration
  | 0, delay => delay
  | count + 1, delay => if delay < 6 * hour then doubleDelay count (delay * 2) else delay

/-- `planningDelay`: five minutes, doubled with every failed attempt, up to six
hours. -/
def planningDelay (attempt : Nat) : Duration :=
  min (doubleDelay (attempt - 1) (5 * minute)) (6 * hour)

/-- The job `Scheduler.plan` passes to `FinishPlanning` for the answer of the
service, which is a decision or an error with its text. -/
def planned (job : Job) (answer : Except String Decision) (at_ : Time) : Job :=
  let job := { job with planningAttempts := job.planningAttempts + 1, updatedAt := at_ }
  match answer with
  | .error text =>
    { job with
      reason := "planning: " ++ text
      retryAt := at_ + planningDelay job.planningAttempts }
  | .ok decision =>
    { job with
      plan := decision.data
      reason := decision.reason
      state := if decision.repair then .ready else .blocked }

@[simp] theorem planned_id (job : Job) (answer : Except String Decision) (at_ : Time) :
    (planned job answer at_).id = job.id := by
  cases answer <;> rfl

@[simp] theorem planned_revision (job : Job) (answer : Except String Decision) (at_ : Time) :
    (planned job answer at_).revision = job.revision := by
  cases answer <;> rfl

@[simp] theorem planned_sourceFingerprint (job : Job) (answer : Except String Decision)
    (at_ : Time) : (planned job answer at_).sourceFingerprint = job.sourceFingerprint := by
  cases answer <;> rfl

/-- The answer for an observed job is one the store is promised. -/
theorem issued_planned {job : Job} (hstate : job.state = .observed)
    (answer : Except String Decision) (at_ : Time) :
    (Call.finishPlanning (planned job answer at_)).Issued := by
  cases answer with
  | error text => exact .inl hstate
  | ok decision =>
    cases hrepair : decision.repair
    · exact .inr (.inr (by simp [planned, hrepair]))
    · exact .inr (.inl (by simp [planned, hrepair]))

/-! ## The planner -/

/-- The store, and for each job the copy whose planning answer is outstanding. -/
structure Planner where
  store : Store
  outstanding : JobID → Option Job

/-- What can happen between the planner and the store. -/
inductive PlannerEvent
  /-- A call of some other component, or a plan set directly. -/
  | call (call : Call)
  /-- The scheduler lists an observed job with evidence, to plan it. -/
  | read (id : JobID)
  /-- The answer for the outstanding copy is stored. -/
  | answer (id : JobID) (answer : Except String Decision) (at_ : Time)
  /-- The copy is given up: not planned after all, or its answer was refused. -/
  | drop (id : JobID)
  | restart

namespace Planner

def init : Planner := ⟨Store.empty, fun _ => none⟩

section Steps

variable [JSONSerializer]

/-- One step of the planner, when the event is possible. Planning answers come
from outstanding copies only. -/
def next (planner : Planner) : PlannerEvent → Option Planner
  | .call (.finishPlanning _) => none
  | .call call => (planner.store.nextIssued call).map fun store => { planner with store := store }
  | .read id =>
    match planner.store.jobs.find id with
    | none => none
    | some job =>
      if job.state = .observed ∧ job.evidence.len ≠ 0 ∧ planner.outstanding id = none then
        some { planner with outstanding := Function.update planner.outstanding id (some job) }
      else none
  | .answer id answer at_ =>
    match planner.outstanding id with
    | none => none
    | some copy =>
      (planner.store.nextIssued (.finishPlanning (planned copy answer at_))).map fun store =>
        ⟨store, Function.update planner.outstanding id none⟩
  | .drop id => some { planner with outstanding := Function.update planner.outstanding id none }
  | .restart => some { planner with outstanding := fun _ => none }

def Step (planner : Planner) (event : PlannerEvent) (planner' : Planner) : Prop :=
  planner.next event = some planner'

/-- What one step can do. -/
inductive Cases (planner : Planner) : PlannerEvent → Planner → Prop
  | call {call : Call} {store : Store} (other : ∀ job, call ≠ .finishPlanning job)
      (step : planner.store.Step call store) :
      Cases planner (.call call) { planner with store := store }
  | read {id : JobID} {job : Job} (found : planner.store.jobs.find id = some job)
      (observed : job.state = .observed) (evidence : job.evidence.len ≠ 0)
      (free : planner.outstanding id = none) :
      Cases planner (.read id)
        { planner with outstanding := Function.update planner.outstanding id (some job) }
  | answer {id : JobID} {copy : Job} {reply : Except String Decision} {at_ : Time} {store : Store}
      (held : planner.outstanding id = some copy)
      (step : planner.store.Step (.finishPlanning (planned copy reply at_)) store) :
      Cases planner (.answer id reply at_)
        ⟨store, Function.update planner.outstanding id none⟩
  | drop {id : JobID} :
      Cases planner (.drop id)
        { planner with outstanding := Function.update planner.outstanding id none }
  | restart : Cases planner .restart { planner with outstanding := fun _ => none }

variable {planner planner' : Planner} {event : PlannerEvent} {past : List (Planner × PlannerEvent)}

theorem cases_of_step (hstep : planner.Step event planner') : Cases planner event planner' := by
  unfold Step at hstep
  cases event with
  | call call =>
    by_cases hanswer : ∃ job, call = .finishPlanning job
    · obtain ⟨job, rfl⟩ := hanswer
      cases hstep
    · have hother : ∀ job, call ≠ .finishPlanning job := fun job h => hanswer ⟨job, h⟩
      have hnext : planner.next (.call call) =
          (planner.store.nextIssued call).map fun store => { planner with store := store } := by
        cases call with
        | finishPlanning job => exact absurd rfl (hother job)
        | _ => rfl
      rw [hnext, Option.map_eq_some_iff] at hstep
      obtain ⟨store, hstore, rfl⟩ := hstep
      exact .call hother (Store.step_of_nextIssued _ _ _ hstore)
  | read id =>
    simp only [next] at hstep
    split at hstep
    · cases hstep
    rename_i job hfind
    obtain ⟨hguard, ⟨⟩⟩ := Option.ite_none_right_eq_some.mp hstep
    exact .read hfind hguard.1 hguard.2.1 hguard.2.2
  | answer id reply at_ =>
    simp only [next] at hstep
    split at hstep
    · cases hstep
    rename_i copy hheld
    obtain ⟨store, hstore, rfl⟩ := Option.map_eq_some_iff.mp hstep
    exact .answer hheld (Store.step_of_nextIssued _ _ _ hstore)
  | drop id =>
    cases hstep
    exact .drop
  | restart =>
    cases hstep
    exact .restart

/-- Where an outstanding copy comes from: it was outstanding, or it was just
read. -/
theorem outstanding_of_cases (hcases : Cases planner event planner') {id : JobID} {copy : Job}
    (hheld : planner'.outstanding id = some copy) :
    planner.outstanding id = some copy ∨
      planner'.store = planner.store ∧ planner.store.jobs.find id = some copy ∧
        copy.state = .observed ∧ copy.evidence.len ≠ 0 := by
  have hcleared {other : JobID}
      (h : Function.update planner.outstanding other none id = some copy) :
      planner.outstanding id = some copy := by
    by_cases hid : id = other
    · subst hid
      rw [Function.update_self] at h
      cases h
    · rwa [Function.update_of_ne hid] at h
  cases hcases with
  | call => exact .inl hheld
  | @read other job found observed evidence =>
    have hheld : Function.update planner.outstanding other (some job) id = some copy := hheld
    by_cases hid : id = other
    · subst hid
      rw [Function.update_self] at hheld
      cases hheld
      exact .inr ⟨rfl, found, observed, evidence⟩
    · rw [Function.update_of_ne hid] at hheld
      exact .inl hheld
  | answer => exact .inl (hcleared hheld)
  | drop => exact .inl (hcleared hheld)
  | restart => cases hheld

/-- An outstanding copy is of its own job, and it was waiting to be planned. -/
theorem outstanding_of_reaches (hrun : Reaches Step init past planner) :
    ∀ id copy, planner.outstanding id = some copy → copy.id = id ∧ copy.state = .observed := by
  refine Reaches.invariant (fun _ planner => ∀ id copy, planner.outstanding id = some copy →
    copy.id = id ∧ copy.state = .observed) hrun (fun id copy h => by cases h) ?_
  intro past planner event planner' _ law hstep id copy hcopy
  rcases outstanding_of_cases (cases_of_step hstep) hcopy with hheld | ⟨-, hfind, hstate, -⟩
  · exact law id copy hheld
  · exact ⟨Table.key_of_find hfind, hstate⟩

/-- The planner issues store calls as they are promised, so jobs and attempts
agree in every state it reaches. -/
theorem agreement_of_reaches (hrun : Reaches Step init past planner) : planner.store.Agreement := by
  refine Reaches.invariant (fun _ planner => planner.store.Agreement) hrun
    Store.agreement_empty ?_
  intro past planner event planner' _ law hstep
  cases cases_of_step hstep with
  | call _ step | answer _ step => exact law.apply step.1 step.2
  | read | drop | restart => exact law

theorem marshalled_of_reaches (hrun : Reaches Step init past planner) :
    planner.store.Marshalled := by
  refine Reaches.invariant (fun _ planner => planner.store.Marshalled) hrun
    Store.marshalled_empty ?_
  intro past planner event planner' _ law hstep
  cases cases_of_step hstep with
  | call _ step | answer _ step => exact law.apply step.2
  | read | drop | restart => exact law

end Steps

/-! ## What a run stored and observed for one job -/

/-- The answer an event stores for a job whose row has the given fingerprint
and revision. -/
def storedAnswer (id : JobID) (fingerprint : String) (revision : Nat) (planner : Planner) :
    PlannerEvent → Option Job
  | .answer jobID reply at_ =>
    if jobID = id ∧ (planner.store.jobs.find id).any fun job =>
        job.planningFingerprint = fingerprint ∧ job.revision = revision then
      (planner.outstanding id).map fun copy => planned copy reply at_
    else none
  | _ => none

/-- The answers `FinishPlanning` stored for a job with the given fingerprint at
the given revision, most recent first. -/
def storedAnswers (id : JobID) (fingerprint : String) (revision : Nat)
    (past : List (Planner × PlannerEvent)) : List Job :=
  past.filterMap fun entry => entry.1.storedAnswer id fingerprint revision entry.2

/-- The observation an event makes of a job, if it carries evidence. -/
def observedEvidence (id : JobID) (planner : Planner) : PlannerEvent → Option Job
  | .call call => planner.store.observedEvidence id call
  | _ => none

/-- The observations with evidence of a job, most recent first. -/
def evidences (id : JobID) (past : List (Planner × PlannerEvent)) : List Job :=
  past.filterMap fun entry => entry.1.observedEvidence id entry.2

section

variable {planner : Planner} {past : List (Planner × PlannerEvent)} {id : JobID}

theorem mem_evidences_of_cons (entry : Planner × PlannerEvent) {observed : Job}
    (hmem : observed ∈ evidences id past) : observed ∈ evidences id (entry :: past) := by
  rw [evidences, List.mem_filterMap] at hmem ⊢
  obtain ⟨earlier, hearlier, hobserved⟩ := hmem
  exact ⟨earlier, List.mem_cons_of_mem _ hearlier, hobserved⟩

theorem mem_evidences_observe {observed : Job} (hevidence : observed.evidence ≠ none)
    (hid : planner.store.observedID observed = id) :
    observed ∈ evidences id ((planner, .call (.observe observed)) :: past) := by
  rw [evidences, List.mem_filterMap]
  exact ⟨_, List.mem_cons_self, if_pos ⟨hevidence, hid⟩⟩

end

end Planner

end NixConfig.MediaRepair.Repair
