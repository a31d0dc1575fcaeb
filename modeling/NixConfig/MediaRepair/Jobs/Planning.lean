/-
# Operator requests, planning answers, removal and the queue

The transactions that move a job between planning, removal and the queue. They
share the store with the transactions that run attempts and exclude each other
only through the state, the pending action and the revision of the row.
-/

import NixConfig.MediaRepair.Jobs.Store

namespace NixConfig.MediaRepair.Jobs

variable [JSONSerializer]

namespace Store

/-- The row an accepted request leaves. -/
def requestedJob (job : Job) (action : Action) (guidance : String) (runtimeToleranceMS : Int)
    (at_ : Time) : Job :=
  let job :=
    { job with
      revision := job.revision + 1
      pendingAction := action
      reason := ""
      retryAt := 0
      updatedAt := at_ }
  if action = .reconsider then
    { job with
      guidance := guidance
      runtimeToleranceMS := runtimeToleranceMS
      planningAttempts := 0
      state := .observed }
  else
    job

/-- `requestAction`; `expected` is the job an answer from the inbox was given
for. -/
def requestAction (store : Store) (id : JobID) (action : Action) (guidance : String)
    (runtimeToleranceMS : Int) (at_ : Time) (expected : Option Job) : Except Error Store := do
  let job ← store.first id
  if expected.any fun seen => job.revision ≠ seen.revision ∨
      job.sourceFingerprint ≠ seen.sourceFingerprint ∨ job.state ≠ seen.state ∨
      !job.inQueue ∨ job.pendingAction ≠ .none ∨ job.collectionError ≠ "" then
    .error .conflict
  else if job.state.active ∨ job.state = .removed ∨
      (action ≠ .reconsider ∧ action ≠ .delete) then
    .error .conflict
  else if action = .reconsider ∧ job.state = .imported then
    .error .conflict
  else
    store.saveJob (requestedJob job action guidance runtimeToleranceMS at_)

/-- `RequestReconsideration`. -/
def requestReconsideration (store : Store) (expected : Job) (guidance : String)
    (runtimeToleranceMS : Int) (at_ : Time) : Except Error Store :=
  store.requestAction expected.id .reconsider guidance runtimeToleranceMS at_ (some expected)

/-- The row a planning answer leaves. -/
def plannedJob (job planned : Job) : Job :=
  { job with
    plan := planned.plan
    state := planned.state
    reason := planned.reason
    retryAt := planned.retryAt
    planningAttempts := planned.planningAttempts
    updatedAt := planned.updatedAt
    pendingAction :=
      if planned.state = .ready ∨ planned.state = .blocked then .none else job.pendingAction }

/-- `FinishPlanning`. -/
def finishPlanning (store : Store) (planned : Job) : Except Error Store := do
  let job ← store.first planned.id
  if job.revision ≠ planned.revision ∨ job.sourceFingerprint ≠ planned.sourceFingerprint ∨
      job.state.active ∨ job.state = .removed ∨ job.state = .imported then
    .error .conflict
  else
    let job := plannedJob job { planned with plan := ← planned.plan.column }
    (store.rememberPlanning job).saveJob job

/-- The row the end of a removal leaves. -/
def removalFinished (job : Job) (failure : Option String) (at_ : Time) : Job :=
  match failure with
  | none =>
    { job with
      updatedAt := at_
      state := .removed
      inQueue := false
      pendingAction := .none
      reason := "queue tracking removed; media retained" }
  | some text =>
    { job with updatedAt := at_, state := .blocked, reason := text, retryAt := at_ + 5 * minute }

/-- `FinishRemoval`; `failure` is the text of the error `Remove` returned. -/
def finishRemoval (store : Store) (requested : Job) (failure : Option String) (at_ : Time) :
    Except Error Store := do
  let job ← store.first requested.id
  if job.revision ≠ requested.revision ∨ job.pendingAction ≠ .delete then
    .error .conflict
  else
    store.saveJob (removalFinished job failure at_)

/-- The row `StartRemoval` leaves. -/
def removingJob (job : Job) (at_ : Time) : Job :=
  { job with state := .removing, updatedAt := at_ }

/-- `StartRemoval`. -/
def startRemoval (store : Store) (id : JobID) (at_ : Time) : Except Error (Store × Job) := do
  let job ← store.first id
  if job.pendingAction ≠ .delete ∨ job.state = .running ∨ job.state = .importing then
    .error .conflict
  else
    return (← store.saveJob (removingJob job at_), removingJob job at_)

/-! ## Reconciling with the queue -/

/-- A job whose queue entry is present under the key `present`. -/
def followJob (job : Job) (present : QueueKey) : Job :=
  if job.state = .removed then
    { job with
      queueID := present.queueID
      inQueue := true
      state := .blocked
      reason := "queue entry is present again" }
  else
    { job with queueID := present.queueID, inQueue := true }

/-- A job whose queue entry is gone. -/
def dropJob (job : Job) (at_ : Time) : Job :=
  if !job.state.active ∧ job.state ≠ .imported then
    { job with
      inQueue := false
      updatedAt := at_
      state := .removed
      reason := "no longer in the queue"
      pendingAction := .none }
  else
    { job with inQueue := false, updatedAt := at_ }

/-- One round of the loop of `ReconcileQueue`: the row to save for the job at
`index`, if any. -/
def reconcileJob (previous present : List QueueKey) (at_ : Time) (index : Nat) (job : Job) :
    Except Error (Option Job) := do
  match ← matchQueue job.queueKey present with
  | some matched =>
    let entry := present.getD matched job.queueKey
    -- Matching in both directions prevents merging two album jobs.
    let owner ← matchQueue entry previous
    if owner ≠ some index then
      return none
    else if job.queueID = entry.queueID ∧ job.inQueue ∧ job.state ≠ .removed then
      return none
    else
      return some (followJob job entry)
  | none => return if job.inQueue then some (dropJob job at_) else none

/-- The loop of `ReconcileQueue` over the remaining jobs of the service. -/
def reconcileJobs (previous present : List QueueKey) (at_ : Time) :
    List Job → Nat → Store → Except Error Store
  | [], _, store => .ok store
  | job :: rest, index, store => do
    match ← reconcileJob previous present at_ index job with
    | none => reconcileJobs previous present at_ rest (index + 1) store
    | some row => reconcileJobs previous present at_ rest (index + 1) (← store.saveJob row)

/-- `ReconcileQueue`. -/
def reconcileQueue (store : Store) (service : Service) (present : List QueueKey) (at_ : Time) :
    Except Error Store :=
  let jobs := store.list service
  reconcileJobs (jobs.map Job.queueKey) present at_ jobs 0 store

end Store

/-! ## Calls -/

/-- A call of a store operation that writes, with its arguments. -/
inductive Call
  | observe (observed : Job)
  | setPlan (id : JobID) (fingerprint : String) (plan : RawMessage) (guidance : String) (at_ : Time)
  | requestAction (id : JobID) (action : Action) (guidance : String) (runtimeToleranceMS : Int)
      (at_ : Time)
  | requestReconsideration (expected : Job) (guidance : String) (runtimeToleranceMS : Int)
      (at_ : Time)
  | finishPlanning (planned : Job)
  | start (id : JobID) (at_ : Time)
  | updateAttempt (attempt : Attempt)
  | startRemoval (id : JobID) (at_ : Time)
  | finishRemoval (requested : Job) (failure : Option String) (at_ : Time)
  | reconcileQueue (service : Service) (present : List QueueKey) (at_ : Time)
  deriving DecidableEq

/-- The store a call commits, or why it is rolled back. -/
def Store.apply (store : Store) : Call → Except Error Store
  | .observe observed => Prod.fst <$> store.observe observed
  | .setPlan id fingerprint plan guidance at_ => store.setPlan id fingerprint plan guidance at_
  | .requestAction id action guidance tolerance at_ =>
    store.requestAction id action guidance tolerance at_ none
  | .requestReconsideration expected guidance tolerance at_ =>
    store.requestReconsideration expected guidance tolerance at_
  | .finishPlanning planned => store.finishPlanning planned
  | .start id at_ => Prod.fst <$> store.start id at_
  | .updateAttempt attempt => store.updateAttempt attempt
  | .startRemoval id at_ => Prod.fst <$> store.startRemoval id at_
  | .finishRemoval requested failure at_ => store.finishRemoval requested failure at_
  | .reconcileQueue service present at_ => store.reconcileQueue service present at_

/-- One committed call. A call that is rolled back is no step of the store. -/
def Store.Commits (store : Store) (call : Call) (store' : Store) : Prop :=
  store.apply call = .ok store'

/-- The store after a call, when it commits. -/
def Store.next (store : Store) (call : Call) : Option Store := (store.apply call).toOption

theorem Store.commits_of_next (store : Store) (call : Call) (store' : Store)
    (hnext : store.next call = some store') : store.Commits call store' := by
  unfold Store.next at hnext
  unfold Store.Commits
  cases hcall : store.apply call with
  | error failure => rw [hcall] at hnext; cases hnext
  | ok saved => rw [hcall] at hnext; cases hnext; rfl

end NixConfig.MediaRepair.Jobs
