/-
# A plan stays with the evidence it was decided from

A job that is ready or being executed still has the source fingerprint of the
copy its plan was decided from, and, when its observations carry planning
fingerprints, the very evidence of that copy. The scheduler's one work
goroutine makes this possible: it does not observe a job between reading it for
planning and storing the answer. Operators, removals, restarts and the queue
may interleave freely, for none of them touches what was observed.
-/

import NixConfig.MediaRepair.Repair.Planning

namespace NixConfig.MediaRepair.Jobs

/-- The states in which a job's plan is about to be executed or is executed. -/
def State.committed : State → Bool
  | .ready | .running | .importing => true
  | _ => false

theorem State.committed_of_working {state : State} (hworking : state.working = true) :
    state.committed = true := by
  cases state <;> simp_all [State.working, State.committed]

theorem State.ready_of_committed {state : State} (hcommitted : state.committed = true)
    (hidle : state.active = false) : state = .ready := by
  cases state <;> simp_all [State.committed, State.active]

namespace Store

/-- An observation that leaves a job committed to its plan found it so, and
keeps the plan and the source; evidence is replaced only by an observation
without a planning fingerprint. -/
theorem committed_observeJob (store : Store) (job observed : Job)
    (hrow : (store.observeJob job observed).2.state.committed = true) :
    job.state.committed = true ∧ (store.observeJob job observed).2.plan = job.plan ∧
      (store.observeJob job observed).2.sourceFingerprint = job.sourceFingerprint ∧
      ((store.observeJob job observed).2.evidence = job.evidence ∨
        job.state.active = false ∧ observed.evidence ≠ none ∧
          observed.planningFingerprint = "") := by
  have hstate : (store.observeJob job observed).2.state = job.state := by
    rcases state_observeJob store job observed with hsame | ⟨-, -, -, h | h⟩
    · exact hsame
    · rw [h] at hrow
      cases hrow
    · rw [h] at hrow
      cases hrow
  rw [hstate] at hrow
  refine ⟨hrow, ?_⟩
  generalize hresult : (store.observeJob job observed).2 = row at hstate ⊢
  have houtcome := outcome_observeJob store job observed
  rw [hresult] at houtcome
  cases houtcome with
  | refreshed quiet row_eq =>
    subst row_eq
    exact ⟨rfl, rfl, .inl rfl⟩
  | kept idle evidence past row_eq =>
    have hunchanged : inputChanged job observed = false := by
      rcases past with h | h | h
      · exact h
      · rw [h] at hrow
        cases hrow
      · rw [h] at hrow
        cases hrow
    have hready : job.state = .ready := State.ready_of_committed hrow idle
    rw [evidencedJob, hunchanged] at row_eq
    by_cases hcarried : observed.planningFingerprint = ""
    · -- Without a planning fingerprint the sources were compared, and are equal.
      have hsource : job.sourceFingerprint = observed.sourceFingerprint := by
        rw [inputChanged, if_pos hcarried] at hunchanged
        exact not_not.mp (of_decide_eq_false hunchanged)
      rw [if_pos (.inr (.inr hcarried))] at row_eq
      subst row_eq
      exact ⟨rfl, hsource.symm, .inr ⟨idle, evidence, hcarried⟩⟩
    · have hholds : ¬(job.state ≠ .ready ∨ false = true ∨ observed.planningFingerprint = "") := by
        simp [hready, hcarried]
      have row_eq := row_eq.trans (if_neg hholds)
      subst row_eq
      exact ⟨rfl, rfl, .inl rfl⟩
  | reopened idle evidence changed notImported notRemoved fingerprint source evidence_eq stable
      taken =>
    exfalso
    rw [← hstate] at hrow
    cases taken with
    | fresh none state => rw [state] at hrow; cases hrow
    | retry some unfinished state => rw [state] at hrow; cases hrow
    | decided some complete state => rw [state] at hrow; cases hrow

end Store

/-- A job becomes committed to a plan by a planning answer only. -/
theorem Change.committed [JSONSerializer] {store : Store} {call : Call} {job row : Job}
    (change : Change store call job row) (law : store.Agreement)
    (hjob : store.jobs.find job.id = some job) (hplan : call.writesPlan = false)
    (hrow : row.state.committed = true) : job.state.committed = true := by
  cases change with
  | observe | setPlan | finishPlanning => cases hplan
  | reconsider | startRemoval => cases hrow
  | delete => exact hrow
  | start same ready => rw [ready]; rfl
  | updateAttempt same found active =>
    -- The attempt that is updated is under way, and the job is in its state.
    obtain ⟨n, agrees⟩ := law.agrees _ job hjob
    rw [show Attempt.key _ = (job.id, _) by rw [← same]; rfl] at found
    obtain ⟨-, hworking, hstate⟩ := agrees.latest _ _ found active
    rw [hstate]
    exact State.committed_of_working hworking
  | finishRemoval =>
    rcases Store.state_removalFinished job _ _ with h | h <;> rw [h] at hrow <;> cases hrow
  | follow =>
    obtain ⟨-, hsame | ⟨-, hblocked⟩⟩ := Store.state_followJob job _
    · rwa [hsame] at hrow
    · rw [hblocked] at hrow
      cases hrow
  | drop =>
    rcases Store.state_dropJob job _ with ⟨-, hsame⟩ | ⟨-, -, hremoved⟩
    · rwa [hsame] at hrow
    · rw [hremoved] at hrow
      cases hrow

end NixConfig.MediaRepair.Jobs

namespace NixConfig.MediaRepair.Repair

open Data Semantics Jobs

namespace Planner

variable {planner planner' : Planner} {past : List (Planner × PlannerEvent)}
  {event : PlannerEvent} {id : JobID}

/-- An event as one work goroutine produces it: a job is not observed while its
copy is outstanding, and a plan that is set directly was decided from the
outstanding copy. -/
def Disciplined (id : JobID) (planner : Planner) : PlannerEvent → Prop
  | .call (.observe observed) =>
    planner.store.observedID observed = id → planner.outstanding id = none
  | .call (.setPlan jobID fingerprint _ _ _) =>
    jobID = id → ∃ copy ∈ planner.outstanding id, copy.sourceFingerprint = fingerprint
  | _ => True

instance (id : JobID) (planner : Planner) (event : PlannerEvent) :
    Decidable (Disciplined id planner event) := by
  unfold Disciplined
  split <;> infer_instance

section Runs

variable [JSONSerializer]

/-- The copy that the plan an event stores for a job was decided from, and that
plan as it is stored. -/
def decision (id : JobID) (planner : Planner) : PlannerEvent → Option (Job × RawMessage)
  | .answer jobID reply at_ =>
    if jobID = id then do
      let copy ← planner.outstanding id
      let plan ← (planned copy reply at_).plan.column.toOption
      return (copy, plan)
    else none
  | .call (.setPlan jobID _ plan _ _) =>
    if jobID = id then do
      let copy ← planner.outstanding id
      let plan ← plan.column.toOption
      return (copy, plan)
    else none
  | _ => none

/-- The copy a job's current plan was decided from, and the plan: those of the
most recent planning answer or plan that was accepted. -/
def decidedFrom (id : JobID) (past : List (Planner × PlannerEvent)) : Option (Job × RawMessage) :=
  past.findSome? fun entry => entry.1.decision id entry.2

/-- What ties the row of a job to the copies its plans are decided from. -/
structure Bound (id : JobID) (past : List (Planner × PlannerEvent)) (planner : Planner) :
    Prop where
  /-- An outstanding copy is still the observed case of the row. -/
  held : ∀ copy, planner.outstanding id = some copy →
    ∃ job, planner.store.jobs.find id = some job ∧
      job.sourceFingerprint = copy.sourceFingerprint ∧ job.evidence = copy.evidence
  /-- A committed row has the plan that was decided last, and the case it was
  decided from. -/
  bound : ∀ job, planner.store.jobs.find id = some job → job.state.committed = true →
    ∃ copy, decidedFrom id past = some (copy, job.plan) ∧
      job.sourceFingerprint = copy.sourceFingerprint ∧
      ((∀ observed ∈ evidences id past, observed.planningFingerprint ≠ "") →
        job.evidence = copy.evidence)

theorem decidedFrom_cons_of_none (hnone : planner.decision id event = none) :
    decidedFrom id ((planner, event) :: past) = decidedFrom id past := by
  rw [decidedFrom, List.findSome?_cons, hnone]
  rfl

theorem decidedFrom_cons_of_some {decided : Job × RawMessage}
    (hsome : planner.decision id event = some decided) :
    decidedFrom id ((planner, event) :: past) = some decided := by
  rw [decidedFrom, List.findSome?_cons, hsome]

namespace Bound

/-- A row that keeps its plan and its case stays bound. -/
private theorem keep (law : Bound id past planner) {job row : Job}
    (hjob : planner.store.jobs.find id = some job) (hcommitted : job.state.committed = true)
    (hnone : planner.decision id event = none) (hplan : row.plan = job.plan)
    (hsource : row.sourceFingerprint = job.sourceFingerprint)
    (hevidence : (∀ observed ∈ evidences id ((planner, event) :: past),
      observed.planningFingerprint ≠ "") → row.evidence = job.evidence) :
    ∃ copy, decidedFrom id ((planner, event) :: past) = some (copy, row.plan) ∧
      row.sourceFingerprint = copy.sourceFingerprint ∧
      ((∀ observed ∈ evidences id ((planner, event) :: past),
        observed.planningFingerprint ≠ "") → row.evidence = copy.evidence) := by
  obtain ⟨copy, hdecided, hcopySource, hcopyEvidence⟩ := law.bound job hjob hcommitted
  refine ⟨copy, ?_, hsource.trans hcopySource, fun hcarried => ?_⟩
  · rw [decidedFrom_cons_of_none hnone, hplan]
    exact hdecided
  · exact (hevidence hcarried).trans (hcopyEvidence fun observed hmem =>
      hcarried observed (mem_evidences_of_cons _ hmem))

/-- A plan that is set from the outstanding copy binds the row to it. -/
private theorem setPlan (law : Bound id past planner) {fingerprint guidance : String}
    {plan : RawMessage} {at_ : Time} {store : Store}
    (hdisciplined : Disciplined id planner (.call (.setPlan id fingerprint plan guidance at_)))
    (hcall : planner.store.Commits (.setPlan id fingerprint plan guidance at_) store) {row : Job}
    (hrow : store.jobs.find id = some row) :
    ∃ copy, decidedFrom id ((planner, .call (.setPlan id fingerprint plan guidance at_)) :: past) =
        some (copy, row.plan) ∧ row.sourceFingerprint = copy.sourceFingerprint ∧
      row.evidence = copy.evidence := by
  obtain ⟨copy, hheld, -⟩ := hdisciplined rfl
  obtain ⟨job, hjob, hsource, hevidence⟩ := law.held copy hheld
  obtain ⟨found, stored, hstored, hfound, -, -, -, -, rfl⟩ := Store.setPlan_ok hcall
  rw [hjob] at hfound
  cases hfound
  obtain rfl := Table.key_of_find hjob
  cases (Table.find_save_self _ (Store.readiedJob job stored guidance at_)).symm.trans hrow
  refine ⟨copy, decidedFrom_cons_of_some ?_, hsource, hevidence⟩
  have hheld : planner.outstanding job.id = some copy := hheld
  simp [decision, hheld, hstored, Except.toOption, Store.readiedJob]

/-- A call that is not a planning answer keeps rows bound to their cases. -/
private theorem call (law : Bound id past planner) (agreement : planner.store.Agreement)
    (marshalled : planner.store.Marshalled) {call : Call} {store : Store} (hdisciplined : Disciplined id planner (.call call))
    (hother : ∀ job, call ≠ .finishPlanning job) (hstep : planner.store.Step call store) :
    Bound id ((planner, .call call) :: past) { planner with store := store } := by
  obtain ⟨hissued, hcall⟩ := hstep
  refine ⟨fun copy hheld => ?_, fun row hrow hcommitted => ?_⟩
  · obtain ⟨job, hjob, hsource, hevidence⟩ := law.held copy hheld
    obtain ⟨row, hrow, rfl | hchange⟩ := Store.exists_row_of_apply hcall hjob
    · exact ⟨row, hrow, hsource, hevidence⟩
    · refine ⟨row, hrow, ?_⟩
      -- The copy is outstanding, so the job was not observed.
      have hinput : SameInput job row := by
        refine hchange.leaves.sameInput ?_
        rintro observed rfl
        cases hchange with
        | observe found =>
          have hid : job.id = id := Table.key_of_find hjob
          rw [hdisciplined ((Store.observedID_of_found found).trans hid)] at hheld
          cases hheld
        | reconsider asks => cases asks
      exact ⟨hinput.sourceFingerprint.trans hsource, hinput.evidence.trans hevidence⟩
  · by_cases hset : ∃ fingerprint plan guidance at_, call = .setPlan id fingerprint plan guidance at_
    · obtain ⟨fingerprint, plan, guidance, at_, rfl⟩ := hset
      obtain ⟨copy, hdecided, hsource, hevidence⟩ := law.setPlan hdisciplined hcall hrow
      exact ⟨copy, hdecided, hsource, fun _ => hevidence⟩
    have hnone : planner.decision id (.call call) = none := by
      cases call with
      | setPlan jobID fingerprint plan guidance at_ =>
        refine if_neg fun h => hset ?_
        subst h
        exact ⟨_, _, _, _, rfl⟩
      | _ => rfl
    rcases Store.row_of_apply hcall hrow with
      hsame | ⟨observed, rfl, -, -, _, _, -, -, rfl⟩ | ⟨job, hjob, hchange⟩
    · exact law.keep hsame hcommitted hnone rfl rfl fun _ => rfl
    · cases hcommitted
    · obtain rfl := Table.key_of_find hjob
      by_cases hwrites : call.writesPlan = false
      · have hinput := hchange.leaves.sameInput fun observed h => by subst h; cases hwrites
        exact law.keep hjob (hchange.committed agreement hjob hwrites hcommitted) hnone
          (hchange.leaves.plan_eq hwrites) hinput.sourceFingerprint fun _ => hinput.evidence
      · cases hchange with
        | @observe _ observed _ found stored =>
          obtain ⟨hbefore, hplan, hsource, hevidence⟩ :=
            Store.committed_observeJob planner.store job observed hcommitted
          refine law.keep hjob hbefore hnone hplan hsource fun hcarried => ?_
          rcases hevidence with hkept | ⟨-, hcarries, hempty⟩
          · rw [hkept, marshalled.evidence _ job hjob] at stored
            exact (Except.ok.inj stored).symm
          · exact absurd hempty (hcarried observed
              (mem_evidences_observe hcarries (Store.observedID_of_found found)))
        | setPlan _ same => exact absurd ⟨_, _, _, _, by rw [same]⟩ hset
        | finishPlanning => exact absurd rfl (hother _)
        | reconsider asks => cases asks <;> exact absurd rfl hwrites
        | delete | start | updateAttempt | startRemoval | finishRemoval | follow | drop =>
          exact absurd rfl hwrites

/-- The answer for the outstanding copy binds the row to it. -/
private theorem answer (law : Bound id past planner) {copy : Job}
    {reply : Except String Decision} {at_ : Time} {store : Store} (hid : copy.id = id)
    (hheld : planner.outstanding id = some copy)
    (hcall : planner.store.Commits (.finishPlanning (planned copy reply at_)) store) :
    Bound id ((planner, .answer id reply at_) :: past)
      ⟨store, Function.update planner.outstanding id none⟩ := by
  refine ⟨fun found hfound => by simp at hfound, fun row hrow _ => ?_⟩
  obtain ⟨job, hjob, hsource, hevidence⟩ := law.held copy hheld
  obtain ⟨found, plan, hplan, hfound, -, -, -, -, -, rfl⟩ := Store.finishPlanning_ok hcall
  rw [planned_id, hid, hjob] at hfound
  cases hfound
  obtain rfl := Table.key_of_find hjob
  cases (Table.find_save_self _ (Store.plannedJob job _)).symm.trans hrow
  refine ⟨copy, decidedFrom_cons_of_some ?_, hsource, fun _ => hevidence⟩
  simp [decision, hheld, hplan, Except.toOption, Store.plannedJob]

/-- An event that leaves the row of the job alone keeps it bound. -/
private theorem of_quiet (law : Bound id past planner)
    (hnone : planner.decision id event = none)
    (hrow : planner'.store.jobs.find id = planner.store.jobs.find id)
    (hcopies : ∀ copy, planner'.outstanding id = some copy →
      planner.outstanding id = some copy ∨ planner.store.jobs.find id = some copy) :
    Bound id ((planner, event) :: past) planner' := by
  refine ⟨fun copy hheld => ?_, fun job hjob hcommitted => ?_⟩
  · rw [hrow]
    rcases hcopies copy hheld with hearlier | hread
    · exact law.held copy hearlier
    · exact ⟨copy, hread, rfl, rfl⟩
  · exact law.keep (hrow ▸ hjob) hcommitted hnone rfl rfl fun _ => rfl

/-- Every disciplined step keeps the row of a job bound to the case its plan
was decided from. -/
theorem step (hrun : Reaches Step init past planner) (law : Bound id past planner)
    (hdisciplined : Disciplined id planner event) (hstep : planner.Step event planner') :
    Bound id ((planner, event) :: past) planner' := by
  have hcases := cases_of_step hstep
  have hcopies (copy : Job) (hheld : planner'.outstanding id = some copy) :
      planner.outstanding id = some copy ∨ planner.store.jobs.find id = some copy :=
    (outstanding_of_cases hcases hheld).imp_right fun h => h.2.1
  cases hcases with
  | call other step =>
    exact law.call (agreement_of_reaches hrun) (marshalled_of_reaches hrun) hdisciplined other
      step
  | @answer jobID copy reply at_ store held step =>
    have hid : copy.id = jobID := (outstanding_of_reaches hrun jobID copy held).1
    by_cases hsame : jobID = id
    · subst hsame
      exact law.answer hid held step.2
    · have hne : id ≠ (planned copy reply at_).id := by
        rw [planned_id, hid]
        exact Ne.symm hsame
      exact law.of_quiet (if_neg hsame) (Store.finishPlanning_other hne step.2).1 hcopies
  | read | drop | restart => exact law.of_quiet rfl rfl hcopies

end Bound

end Runs

attribute [local instance] compactSerializer

end Planner

end NixConfig.MediaRepair.Repair
