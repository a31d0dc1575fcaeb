/-
# The job store

Three tables and the transactions over them. Every transaction is a function
from the store it finds to an error, which rolls it back, or to the store it
commits with its answer. A transaction reads a job, decides from the row alone
whether it may proceed, and saves the changed row; `Start` and `UpdateAttempt`
also write the attempt, and observations and plans also write the planning
history.

A row is written with all its columns. Those of raw messages that were read from
the store are written back as they were, so only the messages that a call brings
are marshalled here.
-/

import NixConfig.Data.Table
import NixConfig.MediaRepair.Jobs.Model
import Mathlib.Data.List.MinMax

namespace NixConfig.MediaRepair.Jobs

open Data

/-- The database: jobs, their attempts and their planning history. -/
structure Store where
  jobs : Table Job.id
  attempts : Table Attempt.key
  planningResults : Table PlanningResult.key

namespace Store

variable [JSONSerializer]

/-- A freshly migrated database. -/
def empty : Store := ⟨.empty, .empty, .empty⟩

/-- The job under an identifier (`tx.First(&job, id)`). -/
def first (store : Store) (id : JobID) : Except Error Job :=
  match store.jobs.find id with
  | some job => .ok job
  | none => .error .notFound

/-- The job that follows the queue entry of `observed`. -/
def firstByIdentity (store : Store) (observed : Job) : Option Job :=
  store.jobs.rows.find? fun job => job.identity = observed.identity

/-- The identifier the database assigns to the next job. Jobs are never
deleted, so it is one more than the largest identifier in use. -/
def nextID (store : Store) : JobID :=
  (store.jobs.rows.map Job.id).foldr max 0 + 1

/-- Save a job row (`tx.Save(&job)`) under the unique index on its identity. -/
def saveJob (store : Store) (job : Job) : Except Error Store :=
  if store.jobs.rows.any fun other => other.id ≠ job.id ∧ other.identity = job.identity then
    .error .duplicate
  else
    .ok { store with jobs := store.jobs.save job }

/-- `Get`. -/
def get (store : Store) (id : JobID) : Except Error Job := store.first id

/-- `List`: the jobs of one service in the order of their identifiers, which is
the order in which the table received them. -/
def list (store : Store) (service : Service) : List Job :=
  store.jobs.rows.filter fun job => job.service = service

/-- `Attempts`. -/
def attemptsOf (store : Store) (id : JobID) : List Attempt :=
  store.attempts.rows.filter fun attempt => attempt.jobID = id

/-- The attempt of a job with the highest number. -/
def lastAttempt (store : Store) (id : JobID) : Option Attempt :=
  (store.attemptsOf id).argmax Attempt.number

/-- `LatestAttempt`. -/
def latestAttempt (store : Store) (id : JobID) : Except Error Attempt :=
  match store.lastAttempt id with
  | some attempt => .ok attempt
  | none => .error .notFound

/-! ## Planning history -/

/-- Record what planning the job's current input came to, over any earlier
record for the same input and revision. -/
def rememberPlanning (store : Store) (job : Job) : Store :=
  if job.planningFingerprint = "" then
    store
  else
    { store with planningResults := store.planningResults.save (.ofJob job) }

/-- A job that never had a planning fingerprint gets the one its stored
evidence had, and its decision so far is recorded under it. -/
def bootstrapPlanning (store : Store) (job observed : Job) : Store × Job :=
  if job.planningFingerprint = "" then
    let job :=
      { job with
        planningFingerprint :=
          if observed.previousPlanningFingerprint = "" then observed.planningFingerprint
          else observed.previousPlanningFingerprint }
    if job.state ≠ .observed ∨ job.planningAttempts > 0 then
      (store.rememberPlanning job, job)
    else
      (store, job)
  else
    (store, job)

/-- `observePlanning`: the store, the job and whether its planning input
changed. -/
def observePlanning (store : Store) (job observed : Job) : Store × Job × Bool :=
  if observed.planningFingerprint = "" then
    (store, job, decide (job.sourceFingerprint ≠ observed.sourceFingerprint))
  else
    let (store, job) := store.bootstrapPlanning job observed
    -- The last decision stays as review context.
    let store :=
      if job.state ≠ .observed ∧ job.plan.len ≠ 0 then store.rememberPlanning job else store
    (store, { job with planningFingerprint := observed.planningFingerprint },
      decide (job.planningFingerprint ≠ observed.planningFingerprint))

/-- The remembered result for the job's current input and revision. -/
def planningResult (store : Store) (job : Job) : Option PlanningResult :=
  store.planningResults.find (job.id, job.planningFingerprint, job.revision)

def alreadyPlanned : String :=
  "these inputs were already planned; request reconsideration to try again"

/-- `restorePlanning`: take up the remembered result for the current input. A
complete one blocks the job, with its plan as context only. -/
def restorePlanning (store : Store) (job : Job) : Job :=
  if job.planningFingerprint = "" then
    job
  else
    match store.planningResult job with
    | none => job
    | some result =>
      let job :=
        { job with
          planningAttempts := result.attempts
          retryAt := result.retryAt
          reason := result.reason }
      if result.complete then
        { job with state := .blocked, reason := alreadyPlanned, plan := result.plan }
      else
        job

/-! ## Observations and plans -/

/-- The row `Observe` creates for a queue entry no job follows yet. -/
def createdJob (store : Store) (observed : Job) : Job :=
  { observed with
    id := store.nextID
    previousPlanningFingerprint := ""
    planningChange := ""
    state := .observed
    stableSince := observed.updatedAt
    inQueue := true }

/-- The part of a row that every observation refreshes. -/
def refreshJob (job observed : Job) : Job :=
  { job with
    title := observed.title
    updatedAt := observed.updatedAt
    inQueue := true
    collectionError := observed.collectionError }

/-- A job whose planning input changed starts over. -/
def reopenJob (job observed : Job) : Job :=
  { job with
    plan := none
    state := .observed
    reason := observed.planningChange
    stableSince := observed.updatedAt
    retryAt := 0
    planningAttempts := 0 }

/-- The row after its planning input was compared: a changed input reopens the
job and takes up what is remembered about it, unless the job is past planning. -/
def comparedJob (store : Store) (job observed : Job) (changed : Bool) : Job :=
  if changed ∧ job.state ≠ .imported ∧ job.state ≠ .removed then
    store.restorePlanning (reopenJob job observed)
  else
    job

/-- The row with the new evidence, where it may be replaced. -/
def evidencedJob (job observed : Job) (changed : Bool) : Job :=
  -- A ready plan belongs to its original full evidence.
  if job.state ≠ .ready ∨ changed ∨ observed.planningFingerprint = "" then
    { job with sourceFingerprint := observed.sourceFingerprint, evidence := observed.evidence }
  else
    job

/-- The evidence part of `Observe`, for a refreshed job that no process owns. -/
def observeEvidence (store : Store) (job observed : Job) : Store × Job :=
  let (store, job, changed) := store.observePlanning job observed
  (store, evidencedJob (store.comparedJob job observed changed) observed changed)

/-- What an observation does to the row of the job it belongs to, and to the
planning history. A process that owns the job keeps its evidence. -/
def observeJob (store : Store) (job observed : Job) : Store × Job :=
  if !job.state.active ∧ observed.evidence ≠ none then
    store.observeEvidence (refreshJob job observed) observed
  else
    (store, refreshJob job observed)

/-- `Observe`. -/
def observe (store : Store) (observed : Job) : Except Error (Store × Job) :=
  match store.firstByIdentity observed with
  | none => do
    let job := store.createdJob observed
    let evidence ← job.evidence.column
    let plan ← job.plan.column
    return (← store.saveJob { job with evidence, plan }, job)
  | some job => do
    let written := store.observeJob job observed
    let evidence ← written.2.evidence.column
    return (← written.1.saveJob (written.2.withEvidence evidence), written.2)

/-- The row `SetPlan` leaves. -/
def readiedJob (job : Job) (plan : RawMessage) (guidance : String) (at_ : Time) : Job :=
  { job with plan := plan, guidance := guidance, updatedAt := at_, state := .ready, reason := "" }

/-- `SetPlan`. -/
def setPlan (store : Store) (id : JobID) (fingerprint : String) (plan : RawMessage)
    (guidance : String) (at_ : Time) : Except Error Store := do
  let job ← store.first id
  if job.sourceFingerprint ≠ fingerprint ∨ job.state.active ∨ job.state = .imported ∨
      job.state = .removed then
    .error .conflict
  else
    let job := readiedJob job (← plan.column) guidance at_
    (store.rememberPlanning job).saveJob job

/-! ## Attempts -/

/-- The number of the job's latest attempt, zero when there is none. -/
def lastNumber (store : Store) (id : JobID) : Nat := (store.lastAttempt id).elim 0 Attempt.number

/-- The row `Start` leaves. -/
def startedJob (job : Job) (at_ : Time) : Job :=
  { job with state := .running, reason := "", updatedAt := at_ }

/-- `Start`. -/
def start (store : Store) (id : JobID) (at_ : Time) : Except Error (Store × Attempt) := do
  let job ← store.first id
  if job.state ≠ .ready ∨ job.pendingAction ≠ .none then
    .error .conflict
  else
    let attempt := Attempt.create job (store.lastNumber id + 1) at_
    let store := { store with attempts := store.attempts.save attempt }
    return (← store.saveJob (startedJob job at_), attempt)

/-- The columns of an attempt that `UpdateAttempt` writes. -/
def overwriteAttempt (previous attempt : Attempt) : Attempt :=
  { previous with
    state := attempt.state
    reason := attempt.reason
    updatedAt := attempt.updatedAt
    outputPath := attempt.outputPath
    importReceipt := attempt.importReceipt
    importRequest := attempt.importRequest
    historyIDBefore := attempt.historyIDBefore
    commandID := attempt.commandID
    importStartedAt := attempt.importStartedAt
    importTerminalAt := attempt.importTerminalAt }

/-- The row of an attempt's job after `UpdateAttempt`. -/
def attemptedJob (job : Job) (attempt : Attempt) : Job :=
  { job with
    state := attempt.state, reason := attempt.reason, updatedAt := attempt.updatedAt }

/-- `UpdateAttempt`: the attempt and its job change together. Attempts are
numbered from one, so the lookup by job and number never drops a condition. -/
def updateAttempt (store : Store) (attempt : Attempt) : Except Error Store :=
  match store.attempts.find attempt.key with
  | none => .error .notFound
  | some previous =>
    if previous.state.active = false then
      .error .conflict
    else do
      let row ← attempt.row
      let store := { store with attempts := store.attempts.save (overwriteAttempt previous row) }
      let job ← store.first attempt.jobID
      store.saveJob (attemptedJob job attempt)

end Store

end NixConfig.MediaRepair.Jobs
