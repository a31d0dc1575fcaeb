/-
# What is remembered about planning

The planning history is written by observations, which keep the last decision
as context before they compare the input, and by planning answers. Every write
records a row of the job table under that row's own fingerprint and revision,
so what the history says about an input depends on what a row's plan has to do
with its fingerprint.

They come apart in one place. An observation of an imported or removed job
replaces the fingerprint and keeps the plan, and the next observation records
the old plan for the new input. Where no such observation happens, every plan
on record was stored for the input it is recorded under.
-/

import NixConfig.MediaRepair.Jobs.Observation
import NixConfig.Semantics.Run

namespace NixConfig.MediaRepair.Jobs

open Data Semantics

namespace Store

variable {store : Store}

theorem find_rememberPlanning (store : Store) (job : Job) (key : JobID × String × Nat) :
    (store.rememberPlanning job).planningResults.find key = store.planningResults.find key ∨
      job.planningFingerprint ≠ "" ∧ key = (job.id, job.planningFingerprint, job.revision) ∧
        (store.rememberPlanning job).planningResults.find key =
          some (PlanningResult.ofJob job) := by
  unfold rememberPlanning
  split_ifs with hnonempty
  · exact .inl rfl
  · by_cases hkey : key = (PlanningResult.ofJob job).key
    · exact .inr ⟨hnonempty, hkey, by rw [hkey]; exact Table.find_save_self _ _⟩
    · exact .inl (Table.find_save_of_ne _ hkey)

/-- Giving a row its first fingerprint records its decision, if it has one. -/
theorem bootstrapPlanning_store (job observed : Job) :
    (store.bootstrapPlanning job observed).1 =
      if job.planningFingerprint = "" ∧ (job.state ≠ .observed ∨ job.planningAttempts > 0) then
        store.rememberPlanning
          { job with planningFingerprint := comparedInput job observed }
      else store := by
  by_cases hempty : job.planningFingerprint = ""
  · have hnamed : comparedInput job observed =
        if observed.previousPlanningFingerprint = "" then observed.planningFingerprint
        else observed.previousPlanningFingerprint := if_pos hempty
    rw [bootstrapPlanning, if_pos hempty, hnamed]
    dsimp only
    by_cases hdecided : job.state ≠ .observed ∨ job.planningAttempts > 0
    · have hboth := And.intro hempty hdecided
      rw [if_pos hdecided, if_pos hboth]
    · have hnot := not_and_of_not_right (job.planningFingerprint = "") hdecided
      rw [if_neg hdecided, if_neg hnot]
  · rw [bootstrapPlanning, if_neg hempty, if_neg fun h => hempty h.1]

private theorem find_observePlanning (store : Store) (job observed : Job)
    (key : JobID × String × Nat) :
    (store.observePlanning job observed).1.planningResults.find key =
        store.planningResults.find key ∨
      observed.planningFingerprint ≠ "" ∧
        (job.state ≠ .observed ∨ job.planningFingerprint = "") ∧
        comparedInput job observed ≠ "" ∧
        key = (job.id, comparedInput job observed, job.revision) ∧
        (store.observePlanning job observed).1.planningResults.find key =
          some (.ofJob { job with planningFingerprint := comparedInput job observed }) := by
  rw [observePlanning_store]
  by_cases hcarried : observed.planningFingerprint = ""
  · rw [if_pos hcarried]
    exact .inl rfl
  rw [if_neg hcarried, bootstrapPlanning_store]
  dsimp only
  -- Both writes record the same row, so one of them decides what is read.
  by_cases hkept : job.state ≠ .observed ∧ job.plan.len ≠ 0
  · rw [if_pos hkept]
    rcases find_rememberPlanning _ { job with planningFingerprint := comparedInput job observed }
      key with hsame | hnew
    · rw [hsame]
      split_ifs with hfirst
      · exact (find_rememberPlanning _ _ key).imp_right (⟨hcarried, .inr hfirst.1, ·⟩)
      · exact .inl rfl
    · exact .inr ⟨hcarried, .inl hkept.1, hnew⟩
  · rw [if_neg hkept]
    split_ifs with hfirst
    · exact (find_rememberPlanning _ _ key).imp_right (⟨hcarried, .inr hfirst.1, ·⟩)
    · exact .inl rfl

end Store

section Serializer

variable [JSONSerializer]

/-- The row a call remembered the decision of. -/
inductive Remembered (store : Store) : Call → Job → Prop
  | observe {job observed : Job} (found : store.firstByIdentity observed = some job)
      (idle : job.state.active = false) (evidence : observed.evidence ≠ none)
      (carried : observed.planningFingerprint ≠ "")
      (decided : job.state ≠ .observed ∨ job.planningFingerprint = "") :
      Remembered store (.observe observed)
        { Store.refreshJob job observed with
          planningFingerprint := Store.comparedInput job observed }
  | setPlan {job : Job} {id : JobID} {fingerprint : String} {plan stored : RawMessage}
      {guidance : String} {at_ : Time} (written : plan.column = .ok stored)
      (found : store.jobs.find id = some job) :
      Remembered store (.setPlan id fingerprint plan guidance at_)
        (Store.readiedJob job stored guidance at_)
  | finishPlanning {job planned : Job} {plan : RawMessage}
      (written : planned.plan.column = .ok plan) (found : store.jobs.find planned.id = some job) :
      Remembered store (.finishPlanning planned) (Store.plannedJob job { planned with plan })

namespace Store

variable {store store' : Store} {job observed row : Job} {fingerprint : String}
  {past : List (Store × Call)}

/-- What stands under a key of the planning history after a call: what stood
there, or the record of one row. -/
def ResultAfter (store : Store) (call : Call) (results : Table PlanningResult.key)
    (key : JobID × String × Nat) : Prop :=
  results.find key = store.planningResults.find key ∨
    ∃ named, Remembered store call named ∧ named.planningFingerprint ≠ "" ∧
      key = (named.id, named.planningFingerprint, named.revision) ∧
      results.find key = some (PlanningResult.ofJob named)

theorem find_observeJob (hfound : store.firstByIdentity observed = some job)
    (key : JobID × String × Nat) :
    ResultAfter store (.observe observed) (store.observeJob job observed).1.planningResults
      key := by
  unfold observeJob
  split_ifs with hguard
  · rcases find_observePlanning store (refreshJob job observed) observed key with
      hsame | ⟨hcarried, hdecided, hnew⟩
    · exact .inl hsame
    · exact .inr ⟨_, .observe hfound (by simpa using hguard.1) hguard.2 hcarried hdecided, hnew⟩
  · exact .inl rfl

variable {call : Call} {id : JobID} {plan : RawMessage}

theorem results_of_apply (hcall : store.apply call = .ok store') (key : JobID × String × Nat) :
    ResultAfter store call store'.planningResults key := by
  cases call with
  | observe observed =>
    obtain ⟨⟨saved, answer⟩, hobserve, rfl⟩ := map_eq_ok.mp hcall
    rcases observe_ok hobserve with ⟨-, _, -, rfl⟩ | ⟨job, _, hfound, -, rfl⟩
    · exact .inl rfl
    · exact find_observeJob hfound key
  | setPlan =>
    obtain ⟨job, _, hwritten, hfind, -, -, -, -, rfl⟩ := setPlan_ok hcall
    exact (find_rememberPlanning _ _ key).imp_right (⟨_, .setPlan hwritten hfind, ·⟩)
  | finishPlanning planned =>
    obtain ⟨job, _, hwritten, hfind, -, -, -, -, -, rfl⟩ := finishPlanning_ok hcall
    exact (find_rememberPlanning _ _ key).imp_right (⟨_, .finishPlanning hwritten hfind, ·⟩)
  | requestAction | requestReconsideration | start | updateAttempt | startRemoval | finishRemoval
  | reconcileQueue => exact .inl (by rw [(after_of_apply hcall).results rfl])

/-- An observation of a known job writes the history as `observeJob` says. -/
theorem planningResults_of_observe (hcall : store.apply (.observe observed) = .ok store')
    (hfound : store.firstByIdentity observed = some job) :
    store'.planningResults = (store.observeJob job observed).1.planningResults := by
  obtain ⟨⟨saved, answer⟩, hobserve, rfl⟩ := map_eq_ok.mp hcall
  rcases observe_ok hobserve with ⟨hnone, -⟩ | ⟨other, _, hother, -, rfl⟩
  · rw [hfound] at hnone
    cases hnone
  · rw [hfound] at hother
    cases hother
    rfl

/-- Apart from planning answers, a call only records complete results for a job
that has a fingerprint. -/
theorem result_of_apply (hcall : store.apply call = .ok store')
    (hother : ∀ planned, call ≠ .finishPlanning planned) (hjob : store.jobs.find id = some job)
    (hnamed : job.planningFingerprint ≠ "") (fingerprint : String) (revision : Nat) :
    store'.planningResults.find (id, fingerprint, revision) =
        store.planningResults.find (id, fingerprint, revision) ∨
      ∃ result, store'.planningResults.find (id, fingerprint, revision) = some result ∧
        result.complete = true := by
  rcases results_of_apply hcall (id, fingerprint, revision) with
    hsame | ⟨named, hremembered, -, hkey, hfind⟩
  · exact .inl hsame
  refine .inr ⟨_, hfind, ?_⟩
  have hid : id = named.id := congrArg Prod.fst hkey
  cases hremembered with
  | @observe other observed found idle evidence carried decided =>
    have hsame : store.jobs.find id = some other := hid ▸ find_of_firstByIdentity found
    rw [hjob] at hsame
    cases hsame
    exact decide_eq_true (decided.resolve_right hnamed)
  | setPlan => rfl
  | finishPlanning => exact absurd rfl (hother _)

/-- A job that is observed after a call was observed before with the same input
and retry state, was moved to a new revision by an operator, or was reopened
with what is remembered about its input. -/
theorem observed_of_apply (hcall : store.apply call = .ok store')
    (hupdate : ∀ attempt, call = .updateAttempt attempt → attempt.state ≠ .observed)
    (hother : ∀ planned, call ≠ .finishPlanning planned) (hjob : store.jobs.find id = some job)
    (hnamed : job.planningFingerprint ≠ "") (hrow : store'.jobs.find id = some row)
    (hstate : row.state = .observed) :
    (job.state = .observed ∧ row.planningFingerprint = job.planningFingerprint ∧
      row.revision = job.revision ∧ row.planningAttempts = job.planningAttempts ∧
      row.retryAt = job.retryAt) ∨
    job.revision < row.revision ∨
    (row.planningFingerprint ≠ "" ∧
      Reopened (store'.planningResults.find (id, row.planningFingerprint, row.revision)) row) := by
  obtain ⟨row', hrow', hcases⟩ := exists_row_of_apply hcall hjob
  rw [hrow] at hrow'
  cases hrow'
  obtain rfl := Table.key_of_find hjob
  rcases hcases with rfl | hchange
  · exact .inl ⟨hstate, rfl, rfl, rfl, rfl⟩
  cases hchange with
  | @observe _ observed _ found =>
    have howner : SameOwner job (store.observeJob job observed).2 := sameOwner_observeJob _ _
    rcases observed_observeJob store _ hnamed hstate with
      ⟨hbefore, hinput, hattempts, hretry⟩ | ⟨hinput, hreopened⟩
    · exact .inl ⟨hbefore, hinput, howner.revision, hattempts, hretry⟩
    · refine .inr (.inr ⟨hinput, ?_⟩)
      rw [planningResults_of_observe hcall found, howner.revision]
      exact reopened_congr hreopened rfl rfl rfl rfl rfl
  | reconsider | delete => exact .inr (.inl (Nat.lt_succ_self _))
  | updateAttempt => exact absurd hstate (hupdate _ rfl)
  | finishPlanning => exact absurd rfl (hother _)
  | setPlan | start | startRemoval => cases hstate
  | finishRemoval =>
    rcases state_removalFinished job _ _ with h | h <;> rw [h] at hstate <;> cases hstate
  | follow same found =>
    unfold followJob at hstate ⊢
    split_ifs at hstate with hstays
    rw [if_neg hstays]
    exact .inl ⟨hstate, rfl, rfl, rfl, rfl⟩
  | drop same gone queued =>
    unfold dropJob at hstate ⊢
    split_ifs at hstate with hstays
    rw [if_neg hstays]
    exact .inl ⟨hstate, rfl, rfl, rfl, rfl⟩

/-- An observation whose evidence is already in the form that it is stored in. -/
def MarshalledEvidence : Call → Prop
  | .observe observed => observed.evidence.column = .ok observed.evidence
  | _ => True

/-- Such evidence is never dropped from a row. -/
theorem evidence_of_apply (hcall : store.apply call = .ok store')
    (hbrought : MarshalledEvidence call) (hstored : job.evidence.column = .ok job.evidence)
    (hjob : store.jobs.find id = some job) (hrow : store'.jobs.find id = some row)
    (hevidence : job.evidence ≠ none) :
    row.evidence ≠ none := by
  obtain ⟨row', hrow', hcases⟩ := exists_row_of_apply hcall hjob
  rw [hrow] at hrow'
  cases hrow'
  rcases hcases with rfl | hchange
  · exact hevidence
  by_cases hobserve : ∃ observed, call = .observe observed
  · obtain ⟨observed, rfl⟩ := hobserve
    cases hchange with
    | observe found stored =>
      rw [column_observeJob store hstored hbrought] at stored
      cases stored
      exact evidence_observeJob store _ hevidence
    | reconsider asks => cases asks
  · rw [(hchange.leaves.sameInput fun observed h => hobserve ⟨observed, h⟩).evidence]
    exact hevidence

/-- An answer for another job changes neither the row of a job nor its history. -/
theorem finishPlanning_other {planned : Job} (hne : id ≠ planned.id)
    (hcall : store.Commits (.finishPlanning planned) store') :
    store'.jobs.find id = store.jobs.find id ∧ ∀ fingerprint revision,
      store'.planningResults.find (id, fingerprint, revision) =
        store.planningResults.find (id, fingerprint, revision) := by
  obtain ⟨job, plan, -, hfind, -, -, -, -, -, rfl⟩ := finishPlanning_ok hcall
  have hid : job.id = planned.id := Table.key_of_find hfind
  refine ⟨Table.find_save_of_ne _ (hid ▸ hne), fun fingerprint revision => ?_⟩
  rcases find_rememberPlanning store (plannedJob job { planned with plan })
    (id, fingerprint, revision) with hsame | ⟨-, hkey, -⟩
  · exact hsame
  · exact absurd ((congrArg Prod.fst hkey).trans hid) hne

/-! ## Plans and the inputs they were stored for -/

/-- The plan a call stores for a job, if the job has the given planning
fingerprint. -/
def storedPlan (id : JobID) (fingerprint : String) (store : Store) : Call → Option RawMessage
  | .setPlan jobID _ plan _ _ =>
    if jobID = id ∧ (store.jobs.find id).any (·.planningFingerprint = fingerprint) then
      plan.column.toOption
    else none
  | .finishPlanning planned =>
    if planned.id = id ∧ (store.jobs.find id).any (·.planningFingerprint = fingerprint) then
      planned.plan.column.toOption
    else none
  | _ => none

/-- The plans that `FinishPlanning` and `SetPlan` stored for a job while its
planning fingerprint was the given one. -/
def storedPlans (id : JobID) (fingerprint : String) (past : List (Store × Call)) :
    List RawMessage :=
  past.filterMap fun entry => entry.1.storedPlan id fingerprint entry.2

theorem mem_storedPlans_of_cons (entry : Store × Call)
    (hmem : plan ∈ storedPlans id fingerprint past) :
    plan ∈ storedPlans id fingerprint (entry :: past) := by
  unfold storedPlans at hmem ⊢
  rw [List.mem_filterMap] at hmem ⊢
  obtain ⟨earlier, hearlier, hplan⟩ := hmem
  exact ⟨earlier, List.mem_cons_of_mem _ hearlier, hplan⟩

theorem mem_storedPlans_of_stored (hstored : store.storedPlan id fingerprint call = some plan) :
    plan ∈ storedPlans id fingerprint ((store, call) :: past) := by
  unfold storedPlans
  rw [List.mem_filterMap]
  exact ⟨(store, call), List.mem_cons_self, hstored⟩

/-- An observation that brings a different input to a job past planning finds
no plan on it. Otherwise the plan would outlive the input it was decided for. -/
def KeepsInput (store : Store) : Call → Prop
  | .observe observed =>
    ∀ job ∈ store.firstByIdentity observed, observed.evidence ≠ none →
      job.state = .imported ∨ job.state = .removed → job.plan.len ≠ 0 →
      observed.planningFingerprint = job.planningFingerprint
  | _ => True

instance (store : Store) (call : Call) : Decidable (store.KeepsInput call) := by
  unfold KeepsInput
  split <;> infer_instance

/-- An observation as a service with planning fingerprints makes it: with a
fingerprint, and without a plan. -/
def Fingerprinted : Call → Prop
  | .observe observed => observed.planningFingerprint ≠ "" ∧ observed.plan = none
  | _ => True

instance (call : Call) : Decidable (Fingerprinted call) := by
  unfold Fingerprinted
  split <;> infer_instance

/-- Every plan on a row or on record was stored for the input it stands under. -/
structure PlansBelong (past : List (Store × Call)) (store : Store) : Prop where
  named : ∀ id job, store.jobs.find id = some job → job.planningFingerprint ≠ ""
  held : ∀ id job, store.jobs.find id = some job → job.plan.len ≠ 0 →
    job.plan ∈ storedPlans id job.planningFingerprint past
  recorded : ∀ id fingerprint revision result,
    store.planningResults.find (id, fingerprint, revision) = some result →
    result.plan.len ≠ 0 → result.plan ∈ storedPlans id fingerprint past

theorem plansBelong_empty : PlansBelong [] Store.empty where
  named := fun _ _ hfind => by cases hfind
  held := fun _ _ hfind => by cases hfind
  recorded := fun _ _ _ _ hfind => by cases hfind

namespace PlansBelong

variable {past : List (Store × Call)} {call : Call}

/-- The plan of a row whose decision is remembered was stored for the input it
is recorded under. -/
theorem of_remembered (law : PlansBelong past store) {named : Job}
    (hremembered : Remembered store call named) (hplan : named.plan.len ≠ 0) :
    named.plan ∈ storedPlans named.id named.planningFingerprint ((store, call) :: past) := by
  cases hremembered with
  | @observe job observed found =>
    have hjob := find_of_firstByIdentity found
    have hheld := law.held _ job hjob hplan
    rw [← comparedInput_of_named (law.named _ job hjob) observed] at hheld
    exact mem_storedPlans_of_cons _ hheld
  | @setPlan job jobID source plan stored guidance at_ written found =>
    obtain rfl := Table.key_of_find found
    refine mem_storedPlans_of_stored ?_
    change (if _ then plan.column.toOption else none) = some stored
    rw [if_pos, written]
    · rfl
    exact ⟨rfl, by change (store.jobs.find job.id).any _ = true; rw [found]; simp [readiedJob]⟩
  | @finishPlanning job planned plan written found =>
    have hid : job.id = planned.id := Table.key_of_find found
    refine mem_storedPlans_of_stored ?_
    change (if _ then planned.plan.column.toOption else none) = some plan
    rw [if_pos, written]
    · rfl
    refine ⟨hid.symm, ?_⟩
    change (store.jobs.find job.id).any _ = true
    rw [hid, found]
    simp [plannedJob]

/-- A history that differs by the record of one row keeps the law. -/
private theorem recorded_of_find (law : PlansBelong past store)
    {results : Table PlanningResult.key} {id : JobID} {fingerprint : String} {revision : Nat}
    (hresults : ResultAfter store call results (id, fingerprint, revision))
    {result : PlanningResult} (hresult : results.find (id, fingerprint, revision) = some result)
    (hplan : result.plan.len ≠ 0) :
    result.plan ∈ storedPlans id fingerprint ((store, call) :: past) := by
  rcases hresults with hsame | ⟨named, hremembered, -, hkey, hfind⟩
  · exact mem_storedPlans_of_cons _ (law.recorded _ _ _ _ (hsame ▸ hresult) hplan)
  · rw [hresult] at hfind
    cases hfind
    obtain ⟨rfl, rfl, rfl⟩ : id = named.id ∧ fingerprint = named.planningFingerprint ∧
        revision = named.revision := by simpa using hkey
    exact law.of_remembered hremembered hplan

/-- An observation leaves a row whose plan was stored for the row's input. -/
private theorem held_of_observe (law : PlansBelong past store) {job observed : Job}
    (hfound : store.firstByIdentity observed = some job)
    (hcarried : observed.planningFingerprint ≠ "") (hkeeps : KeepsInput store (.observe observed))
    (hplan : (store.observeJob job observed).2.plan.len ≠ 0) :
    (store.observeJob job observed).2.plan ∈
      storedPlans job.id (store.observeJob job observed).2.planningFingerprint
        ((store, .observe observed) :: past) := by
  have hjob := find_of_firstByIdentity hfound
  have hnamed := law.named _ job hjob
  generalize hrow : (store.observeJob job observed).2 = row at hplan ⊢
  have houtcome := outcome_observeJob store job observed
  rw [hrow] at houtcome
  cases houtcome with
  | refreshed quiet row_eq =>
    subst row_eq
    exact mem_storedPlans_of_cons _ (law.held _ job hjob hplan)
  | kept idle evidence past_ row_eq =>
    have hrowPlan : row.plan = job.plan := by
      rw [row_eq, evidencedJob]
      split <;> rfl
    have hrowInput : row.planningFingerprint = observed.planningFingerprint := by
      rw [row_eq, evidencedJob, ← nextInput_of_carried hcarried job]
      split <;> rfl
    rw [hrowPlan] at hplan
    -- The input is the old one: unchanged, or kept by a job that holds a plan.
    have hsame : observed.planningFingerprint = job.planningFingerprint := by
      rcases past_ with hunchanged | hpast
      · rw [inputChanged_of_named hnamed hcarried] at hunchanged
        exact (not_not.mp (of_decide_eq_false hunchanged)).symm
      · exact hkeeps job hfound evidence hpast hplan
    rw [hrowPlan, hrowInput, hsame]
    exact mem_storedPlans_of_cons _ (law.held _ job hjob hplan)
  | reopened idle evidence changed notImported notRemoved fingerprint source evidence_eq stable
      taken =>
    cases taken with
    | fresh none state plan => rw [plan] at hplan; exact absurd rfl hplan
    | retry some unfinished state plan => rw [plan] at hplan; exact absurd rfl hplan
    | decided some complete state plan =>
      rw [plan] at hplan ⊢
      rw [fingerprint]
      exact law.recorded_of_find (find_observeJob hfound _) some hplan

/-- Every committed call keeps plans with the inputs they were stored for, when
no observation brings a new input to a planned job that is past planning. -/
theorem apply (law : PlansBelong past store) (hcall : store.Commits call store')
    (hobserved : Fingerprinted call) (hkeeps : KeepsInput store call) :
    PlansBelong ((store, call) :: past) store' := by
  refine ⟨fun id row hrow => ?_, fun id row hrow hplan => ?_, ?_⟩
  · rcases row_of_apply hcall hrow with hsame | ⟨observed, rfl, -, -, _, _, -, -, rfl⟩ | ⟨job, hjob, hchange⟩
    · exact law.named id row hsame
    · exact hobserved.1
    · have hnamed := law.named id job hjob
      by_cases hobserve : ∃ observed, call = .observe observed
      · obtain ⟨observed, rfl⟩ := hobserve
        cases hchange with
        | observe found =>
          rw [fingerprint_observeJob]
          split
          · rw [nextInput_of_carried hobserved.1]
            exact hobserved.1
          · exact hnamed
        | reconsider asks => cases asks
      · rw [(hchange.leaves.sameInput fun observed h => hobserve ⟨observed, h⟩).planningFingerprint]
        exact hnamed
  · rcases row_of_apply hcall hrow with hsame | ⟨observed, rfl, -, -, _, _, -, hnone, rfl⟩ |
      ⟨job, hjob, hchange⟩
    · exact mem_storedPlans_of_cons _ (law.held id row hsame hplan)
    · rw [hobserved.2, RawMessage.column_none] at hnone
      cases hnone
      exact absurd rfl hplan
    · obtain rfl := Table.key_of_find hjob
      by_cases hwrites : call.writesPlan = false
      · have hinput := hchange.leaves.sameInput fun observed h => by subst h; cases hwrites
        rw [hchange.leaves.plan_eq hwrites] at hplan ⊢
        rw [hinput.planningFingerprint]
        exact mem_storedPlans_of_cons _ (law.held _ job hjob hplan)
      · cases hchange with
        | observe found => exact held_of_observe law found hobserved.1 hkeeps hplan
        | setPlan written same => exact law.of_remembered (.setPlan written (same ▸ hjob)) hplan
        | finishPlanning written same =>
          exact law.of_remembered (.finishPlanning written (same ▸ hjob)) hplan
        | reconsider asks => cases asks <;> exact absurd rfl hwrites
        | delete | start | updateAttempt | startRemoval | finishRemoval | follow | drop =>
          exact absurd rfl hwrites
  · intro id fingerprint revision result hresult hplan
    exact law.recorded_of_find (results_of_apply hcall _) hresult hplan

end PlansBelong

/-- In every run whose observations carry a planning fingerprint and never
bring a new one to a planned job that was imported or removed, a planning
result with a plan, complete or not, holds a plan that was stored while the job
had the fingerprint it is recorded under. -/
theorem result_plan_stored_for_input {past : List (Store × Call)}
    (hrun : Reaches Store.Commits Store.empty past store)
    (hobserved : ∀ entry ∈ past, Fingerprinted entry.2)
    (hkeeps : ∀ entry ∈ past, KeepsInput entry.1 entry.2)
    {id : JobID} {fingerprint : String} {revision : Nat} {result : PlanningResult}
    (hresult : store.planningResults.find (id, fingerprint, revision) = some result)
    (hplan : result.plan.len ≠ 0) :
    result.plan ∈ storedPlans id fingerprint past := by
  have law := Reaches.invariant_of_admitted
    (fun store call => Fingerprinted call ∧ KeepsInput store call) PlansBelong hrun
    (fun entry hmem => ⟨hobserved entry hmem, hkeeps entry hmem⟩) plansBelong_empty
    fun _ law hadmitted hstep => law.apply hstep hadmitted.1 hadmitted.2
  exact law.recorded _ _ _ _ hresult hplan

end Store

end Serializer

namespace Store

attribute [local instance] compactSerializer

/-- A case of the download `d` with the planning fingerprint `input`. -/
def sampleCase (input : String) (at_ : Time) : Job :=
  { Job.zero .lidarr with
    queueID := 7, downloadID := "d", sourceFingerprint := input, planningFingerprint := input
    evidence := ascii "0", updatedAt := at_ }

/-- A planned job is observed again under the input it was planned for. -/
def repeatedCalls : List Call :=
  [.observe (sampleCase "first" 1),
    .finishPlanning { sampleCase "first" 1 with id := 1, state := .blocked, plan := ascii "9" },
    .observe (sampleCase "first" 3)]

theorem result_plan_stored_for_input_repeated :
    ∃ past store result, execute Store.next [] Store.empty repeatedCalls = some (past, store) ∧
      store.planningResults.find (1, "first", 0) = some result ∧ result.complete = true ∧
      result.plan ∈ storedPlans 1 "first" past :=
  ⟨_, _, _, rfl, rfl, rfl,
    @result_plan_stored_for_input _ _ _
      (Reaches.execute commits_of_next repeatedCalls .start rfl) (by decide) (by decide)
      1 "first" 0 _ rfl (by decide)⟩

/-- A planned job leaves the queue, and a different case is observed twice. -/
def staleCalls : List Call :=
  [.observe (sampleCase "first" 1),
    .finishPlanning { sampleCase "first" 1 with id := 1, state := .blocked, plan := ascii "9" },
    .reconcileQueue .lidarr [] 2,
    .observe (sampleCase "second" 3),
    .observe (sampleCase "second" 4)]

/-- The plan that was stored for the first case is on record as the decision
for the second, for which nothing was ever planned. -/
theorem stale_plan_recorded_for_other_input :
    ∃ past store result, execute Store.next [] Store.empty staleCalls = some (past, store) ∧
      (∀ call ∈ staleCalls, Fingerprinted call) ∧
      store.planningResults.find (1, "second", 0) = some result ∧
      result.complete = true ∧ result.plan = ascii "9" ∧
      storedPlans 1 "first" past = [ascii "9"] ∧ storedPlans 1 "second" past = [] :=
  ⟨_, _, _, rfl, by decide, rfl, rfl, rfl, rfl, rfl⟩

end Store

end NixConfig.MediaRepair.Jobs
