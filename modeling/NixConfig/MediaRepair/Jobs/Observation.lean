/-
# What an observation does to a row

`Observe` has three outcomes for a job it finds. It only refreshes the row when
a process owns the job or the observation carries no evidence. It keeps the
decision when the planning input is the one already planned, or when the job is
past planning. Otherwise it reopens the job, and what is remembered about the
new input decides whether the job is planned again, backs off, or blocks.
-/

import NixConfig.MediaRepair.Jobs.Change

namespace NixConfig.MediaRepair.Jobs

namespace Store

variable {store : Store} {job observed : Job}

/-- The planning fingerprint the row has when the observation is compared with
it: its own, or the one a row without a fingerprint is given first. -/
def comparedInput (job observed : Job) : String :=
  if job.planningFingerprint = "" then
    if observed.previousPlanningFingerprint = "" then observed.planningFingerprint
    else observed.previousPlanningFingerprint
  else
    job.planningFingerprint

/-- Whether the planning input of a row changed: by source fingerprint when the
observation carries no planning fingerprint. -/
def inputChanged (job observed : Job) : Bool :=
  if observed.planningFingerprint = "" then
    job.sourceFingerprint ≠ observed.sourceFingerprint
  else
    comparedInput job observed ≠ observed.planningFingerprint

/-- The planning fingerprint after an observation with evidence. -/
def nextInput (job observed : Job) : String :=
  if observed.planningFingerprint = "" then job.planningFingerprint
  else observed.planningFingerprint

/-- Of a row that has a fingerprint, the compared input is that fingerprint. -/
theorem comparedInput_of_named {job : Job} (hnamed : job.planningFingerprint ≠ "")
    (observed : Job) : comparedInput job observed = job.planningFingerprint :=
  if_neg hnamed

theorem nextInput_of_carried {observed : Job} (hcarried : observed.planningFingerprint ≠ "")
    (job : Job) : nextInput job observed = observed.planningFingerprint :=
  if_neg hcarried

theorem inputChanged_of_named {job observed : Job} (hnamed : job.planningFingerprint ≠ "")
    (hcarried : observed.planningFingerprint ≠ "") :
    inputChanged job observed = decide (job.planningFingerprint ≠ observed.planningFingerprint) := by
  rw [inputChanged, if_neg hcarried, comparedInput_of_named hnamed]

theorem bootstrapPlanning_job (job observed : Job) :
    (store.bootstrapPlanning job observed).2 =
      { job with planningFingerprint := comparedInput job observed } := by
  unfold bootstrapPlanning comparedInput
  split
  · dsimp only
    split <;> rfl
  · rfl

theorem observePlanning_changed (job observed : Job) :
    (store.observePlanning job observed).2.2 = inputChanged job observed := by
  unfold observePlanning inputChanged
  split
  · rfl
  · dsimp only
    rw [bootstrapPlanning_job]

theorem observePlanning_job (job observed : Job) :
    (store.observePlanning job observed).2.1 =
      { job with planningFingerprint := nextInput job observed } := by
  unfold observePlanning nextInput
  split
  · rfl
  · dsimp only
    rw [bootstrapPlanning_job]

/-- The planning history an observation with evidence leaves. -/
theorem observePlanning_store (job observed : Job) :
    (store.observePlanning job observed).1 =
      if observed.planningFingerprint = "" then store
      else
        let named := { job with planningFingerprint := comparedInput job observed }
        if job.state ≠ .observed ∧ job.plan.len ≠ 0 then
          (store.bootstrapPlanning job observed).1.rememberPlanning named
        else (store.bootstrapPlanning job observed).1 := by
  unfold observePlanning
  split
  · rfl
  · dsimp only
    rw [bootstrapPlanning_job]

/-! ## The three outcomes -/

/-- What taking up the remembered result leaves of a reopened row. -/
inductive Reopened (result : Option PlanningResult) (row : Job) : Prop
  | fresh (none : ∀ found, result = some found → row.planningFingerprint = "")
      (state : row.state = .observed) (plan : row.plan = .none)
      (attempts : row.planningAttempts = 0) (retryAt : row.retryAt = 0)
  | retry {found : PlanningResult} (some : result = some found)
      (unfinished : found.complete = false) (state : row.state = .observed)
      (plan : row.plan = .none) (attempts : row.planningAttempts = found.attempts)
      (retryAt : row.retryAt = found.retryAt)
  | decided {found : PlanningResult} (some : result = some found)
      (complete : found.complete = true) (state : row.state = .blocked)
      (plan : row.plan = found.plan) (attempts : row.planningAttempts = found.attempts)
      (retryAt : row.retryAt = found.retryAt)

/-- The outcome of an observation for the row of the job it belongs to. -/
inductive Outcome (store : Store) (job observed : Job) (row : Job) : Prop
  /-- A process owns the job, or there is no evidence. -/
  | refreshed (quiet : job.state.active = true ∨ observed.evidence = none)
      (row_eq : row = refreshJob job observed)
  /-- The decision stays; the evidence is replaced unless a ready plan holds it. -/
  | kept (idle : job.state.active = false) (evidence : observed.evidence ≠ none)
      (past : inputChanged job observed = false ∨ job.state = .imported ∨ job.state = .removed)
      (row_eq : row = evidencedJob
        { refreshJob job observed with planningFingerprint := nextInput job observed }
        observed (inputChanged job observed))
  /-- The input changed: planning starts over. -/
  | reopened (idle : job.state.active = false) (evidence : observed.evidence ≠ none)
      (changed : inputChanged job observed = true) (notImported : job.state ≠ .imported)
      (notRemoved : job.state ≠ .removed)
      (fingerprint : row.planningFingerprint = nextInput job observed)
      (source : row.sourceFingerprint = observed.sourceFingerprint)
      (evidence_eq : row.evidence = observed.evidence)
      (stable : row.stableSince = observed.updatedAt)
      (taken : Reopened
        ((store.observeJob job observed).1.planningResults.find
          (job.id, nextInput job observed, job.revision)) row)

private theorem reopened_restorePlanning (store : Store) (job : Job) (hstate : job.state = .observed)
    (hplan : job.plan = none) (hattempts : job.planningAttempts = 0) (hretry : job.retryAt = 0) :
    Reopened (store.planningResults.find (job.id, job.planningFingerprint, job.revision))
      (store.restorePlanning job) := by
  unfold restorePlanning
  split_ifs with hempty
  · exact .fresh (fun _ _ => hempty) hstate hplan hattempts hretry
  · unfold planningResult
    cases hresult : store.planningResults.find
        (job.id, job.planningFingerprint, job.revision) with
    | none => exact .fresh (fun found h => by cases h) hstate hplan hattempts hretry
    | some found =>
      dsimp only
      cases hcomplete : found.complete with
      | true => exact .decided rfl hcomplete rfl rfl rfl rfl
      | false => exact .retry rfl hcomplete hstate hplan rfl rfl

private theorem restorePlanning_keeps (store : Store) (job : Job) :
    (store.restorePlanning job).planningFingerprint = job.planningFingerprint ∧
      (store.restorePlanning job).stableSince = job.stableSince := by
  unfold restorePlanning
  split
  · exact ⟨rfl, rfl⟩
  · split
    · exact ⟨rfl, rfl⟩
    · dsimp only
      split <;> exact ⟨rfl, rfl⟩

theorem reopened_congr {result : Option PlanningResult} {row other : Job}
    (taken : Reopened result row) (hfingerprint : other.planningFingerprint = row.planningFingerprint)
    (hstate : other.state = row.state) (hplan : other.plan = row.plan)
    (hattempts : other.planningAttempts = row.planningAttempts)
    (hretry : other.retryAt = row.retryAt) : Reopened result other := by
  cases taken with
  | fresh none state plan attempts retryAt =>
    exact .fresh (fun found h => hfingerprint.trans (none found h)) (hstate.trans state)
      (hplan.trans plan) (hattempts.trans attempts) (hretry.trans retryAt)
  | retry some unfinished state plan attempts retryAt =>
    exact .retry some unfinished (hstate.trans state) (hplan.trans plan)
      (hattempts.trans attempts) (hretry.trans retryAt)
  | decided some complete state plan attempts retryAt =>
    exact .decided some complete (hstate.trans state) (hplan.trans plan)
      (hattempts.trans attempts) (hretry.trans retryAt)

/-- Every observation of a known job has one of the three outcomes. -/
theorem outcome_observeJob (store : Store) (job observed : Job) :
    Outcome store job observed (store.observeJob job observed).2 := by
  -- the two guards of `Observe`, from the outside in
  by_cases hquiet : job.state.active = true ∨ observed.evidence = none
  · refine .refreshed hquiet ?_
    have hguard : ¬(!job.state.active ∧ observed.evidence ≠ none) := by
      rcases hquiet with hactive | hnone
      · simp [hactive]
      · simp [hnone]
    rw [observeJob, if_neg hguard]
  · rw [not_or] at hquiet
    have hidle : job.state.active = false := by simpa using hquiet.1
    have hguard : (!job.state.active) = true ∧ observed.evidence ≠ none := ⟨by simp [hidle], hquiet.2⟩
    have hwritten : store.observeJob job observed =
        store.observeEvidence (refreshJob job observed) observed := by
      rw [observeJob, if_pos hguard]
    have hchanged : inputChanged (refreshJob job observed) observed = inputChanged job observed :=
      rfl
    have hnext : nextInput (refreshJob job observed) observed = nextInput job observed := rfl
    -- the planning input changed and the job is not closed: it is opened again
    by_cases hreopen : inputChanged job observed = true ∧ job.state ≠ .imported ∧
        job.state ≠ .removed
    · obtain ⟨hinput, himported, hremoved⟩ := hreopen
      -- the job that `restorePlanning` sees, and the store after its result was remembered
      set named : Job :=
        { refreshJob job observed with planningFingerprint := nextInput job observed } with hnamed
      set base := (store.observePlanning (refreshJob job observed) observed).1 with hbase
      have hrow : (store.observeJob job observed).2 =
          { base.restorePlanning (reopenJob named observed) with
            sourceFingerprint := observed.sourceFingerprint, evidence := observed.evidence } := by
        rw [hwritten]
        unfold observeEvidence
        dsimp only
        rw [observePlanning_changed, observePlanning_job, hchanged, hnext, hinput]
        rw [comparedJob, if_pos ⟨rfl, himported, hremoved⟩, evidencedJob, if_pos (.inr (.inl rfl))]
      have hstore : (store.observeJob job observed).1 = base := by
        rw [hwritten]
        rfl
      have hkeeps := restorePlanning_keeps base (reopenJob named observed)
      refine .reopened hidle hquiet.2 hinput himported hremoved ?_ ?_ ?_ ?_ ?_
      · rw [hrow]
        exact hkeeps.1
      · rw [hrow]
      · rw [hrow]
      · rw [hrow]
        exact hkeeps.2
      · rw [hstore, hrow]
        exact reopened_congr (reopened_restorePlanning base (reopenJob named observed)
          rfl rfl rfl rfl) rfl rfl rfl rfl rfl
    · refine .kept hidle hquiet.2 ?_ ?_
      · by_contra hnot
        push Not at hnot
        exact hreopen ⟨by simpa using hnot.1, hnot.2.1, hnot.2.2⟩
      · rw [hwritten]
        unfold observeEvidence
        dsimp only
        rw [observePlanning_changed, observePlanning_job, hchanged, hnext, comparedJob]
        exact congrArg (evidencedJob · observed (inputChanged job observed)) (if_neg hreopen)

/-! ## Consequences for single fields -/

/-- The planning fingerprint moves with the evidence. -/
theorem fingerprint_observeJob (store : Store) (job observed : Job) :
    (store.observeJob job observed).2.planningFingerprint =
      if job.state.active = false ∧ observed.evidence ≠ none then nextInput job observed
      else job.planningFingerprint := by
  cases outcome_observeJob store job observed with
  | refreshed quiet row_eq =>
    rw [row_eq, if_neg]
    · rfl
    · rintro ⟨hidle, hevidence⟩
      rcases quiet with hactive | hnone
      · rw [hidle] at hactive
        cases hactive
      · exact hevidence hnone
  | kept idle evidence past row_eq =>
    rw [row_eq, if_pos ⟨idle, evidence⟩, evidencedJob]
    split <;> rfl
  | reopened idle evidence changed notImported notRemoved fingerprint =>
    rw [fingerprint, if_pos ⟨idle, evidence⟩]

/-- An observation leaves the state alone, or reopens a job that no process
owns and that is not past planning. -/
theorem state_observeJob (store : Store) (job observed : Job) :
    (store.observeJob job observed).2.state = job.state ∨
      job.state.active = false ∧ job.state ≠ .imported ∧ job.state ≠ .removed ∧
        ((store.observeJob job observed).2.state = .observed ∨
          (store.observeJob job observed).2.state = .blocked) := by
  cases outcome_observeJob store job observed with
  | refreshed quiet row_eq =>
    rw [row_eq]
    exact .inl rfl
  | kept idle evidence past row_eq =>
    rw [row_eq, evidencedJob]
    split <;> exact .inl rfl
  | reopened idle evidence changed notImported notRemoved fingerprint source evidence_eq stable
      taken =>
    refine .inr ⟨idle, notImported, notRemoved, ?_⟩
    cases taken with
    | fresh none state => exact .inl state
    | retry some unfinished state => exact .inl state
    | decided some complete state => exact .inr state

/-- A process that owns the job keeps its plan. -/
theorem plan_observeJob (store : Store) {job : Job} (observed : Job)
    (hactive : job.state.active = true) : (store.observeJob job observed).2.plan = job.plan := by
  rw [observeJob, if_neg]
  · rfl
  · simp [hactive]

/-- Evidence is replaced by newer evidence, never dropped. -/
theorem evidence_observeJob (store : Store) {job : Job} (observed : Job)
    (hevidence : job.evidence ≠ none) : (store.observeJob job observed).2.evidence ≠ none := by
  cases outcome_observeJob store job observed with
  | refreshed quiet row_eq =>
    rw [row_eq]
    exact hevidence
  | kept idle evidence past row_eq =>
    rw [row_eq, evidencedJob]
    split
    · exact evidence
    · exact hevidence
  | reopened idle evidence changed notImported notRemoved fingerprint source evidence_eq =>
    rw [evidence_eq]
    exact evidence

/-- The evidence of a row is the one it had, or the one that was observed. -/
theorem evidence_observeJob_or (store : Store) (job observed : Job) :
    (store.observeJob job observed).2.evidence = job.evidence ∨
      (store.observeJob job observed).2.evidence = observed.evidence := by
  cases outcome_observeJob store job observed with
  | refreshed quiet row_eq =>
    rw [row_eq]
    exact .inl rfl
  | kept idle evidence past row_eq =>
    rw [row_eq, evidencedJob]
    split
    · exact .inr rfl
    · exact .inl rfl
  | reopened idle evidence changed notImported notRemoved fingerprint source evidence_eq =>
    exact .inr evidence_eq

theorem column_observeJob [JSONSerializer] (store : Store) {job observed : Job}
    (hjob : job.evidence.column = .ok job.evidence)
    (hobserved : observed.evidence.column = .ok observed.evidence) :
    (store.observeJob job observed).2.evidence.column =
      .ok (store.observeJob job observed).2.evidence := by
  rcases store.evidence_observeJob_or job observed with heq | heq <;> rw [heq] <;> assumption

/-- A row keeps its evidence and its two fingerprints, or gets those of the observation. -/
theorem input_observeJob (store : Store) (job observed : Job)
    (hcarried : observed.evidence ≠ none → observed.planningFingerprint ≠ "") :
    ((store.observeJob job observed).2.evidence = job.evidence ∧
      (store.observeJob job observed).2.sourceFingerprint = job.sourceFingerprint ∧
      (job.planningFingerprint ≠ "" →
        (store.observeJob job observed).2.planningFingerprint = job.planningFingerprint)) ∨
    (observed.evidence ≠ none ∧
      (store.observeJob job observed).2.sourceFingerprint = observed.sourceFingerprint ∧
      (store.observeJob job observed).2.planningFingerprint =
        observed.planningFingerprint) := by
  generalize hrow : (store.observeJob job observed).2 = row
  have houtcome := outcome_observeJob store job observed
  rw [hrow] at houtcome
  cases houtcome with
  | refreshed quiet row_eq =>
    subst row_eq
    exact .inl ⟨rfl, rfl, fun _ => rfl⟩
  | kept idle evidence past row_eq =>
    have hcarried := hcarried evidence
    have hnext := nextInput_of_carried hcarried job
    rw [evidencedJob] at row_eq
    split at row_eq
    · subst row_eq
      exact .inr ⟨evidence, rfl, hnext⟩
    · -- A ready plan holds its evidence, and the input it was planned for.
      rename_i hheld
      push Not at hheld
      subst row_eq
      refine .inl ⟨rfl, rfl, fun hnamed => ?_⟩
      have hunchanged : inputChanged job observed = false := by simpa using hheld.2.1
      rw [inputChanged_of_named hnamed hcarried] at hunchanged
      exact hnext.trans (not_not.mp (of_decide_eq_false hunchanged)).symm
  | reopened idle evidence changed notImported notRemoved fingerprint source evidence_eq =>
    exact .inr ⟨evidence, source,
      fingerprint.trans (nextInput_of_carried (hcarried evidence) job)⟩

/-- A row that an observation leaves observed was observed before under the same
input, or the observation reopened it and nothing complete is remembered. -/
theorem observed_observeJob (store : Store) {job : Job} (observed : Job)
    (hnamed : job.planningFingerprint ≠ "")
    (hstate : (store.observeJob job observed).2.state = .observed) :
    (job.state = .observed ∧
      (store.observeJob job observed).2.planningFingerprint = job.planningFingerprint ∧
      (store.observeJob job observed).2.planningAttempts = job.planningAttempts ∧
      (store.observeJob job observed).2.retryAt = job.retryAt) ∨
    ((store.observeJob job observed).2.planningFingerprint ≠ "" ∧
      Reopened ((store.observeJob job observed).1.planningResults.find
        (job.id, (store.observeJob job observed).2.planningFingerprint, job.revision))
        (store.observeJob job observed).2) := by
  -- an observation without a fingerprint keeps the one of the job
  have hnext : nextInput job observed ≠ "" := by
    unfold nextInput
    split
    · exact hnamed
    · assumption
  generalize hrow : (store.observeJob job observed).2 = row at hstate ⊢
  have houtcome := outcome_observeJob store job observed
  rw [hrow] at houtcome
  cases houtcome with
  | refreshed quiet row_eq =>
    subst row_eq
    exact .inl ⟨hstate, rfl, rfl, rfl⟩
  | kept idle evidence past row_eq =>
    have hbefore : job.state = .observed := by
      rw [row_eq, evidencedJob] at hstate
      split at hstate <;> exact hstate
    have hinput : nextInput job observed = job.planningFingerprint := by
      -- an observed job is neither imported nor removed, so its input was the same
      rcases past with hunchanged | himported | hremoved
      · unfold nextInput
        split_ifs with hcarried
        · rfl
        · rw [inputChanged_of_named hnamed hcarried] at hunchanged
          exact (not_not.mp (of_decide_eq_false hunchanged)).symm
      · rw [hbefore] at himported
        cases himported
      · rw [hbefore] at hremoved
        cases hremoved
    rw [evidencedJob] at row_eq
    split at row_eq <;> subst row_eq <;> exact .inl ⟨hbefore, hinput, rfl, rfl⟩
  | reopened idle evidence changed notImported notRemoved fingerprint source evidence_eq stable
      taken =>
    rw [fingerprint]
    exact .inr ⟨hnext, taken⟩

end Store

end NixConfig.MediaRepair.Jobs
