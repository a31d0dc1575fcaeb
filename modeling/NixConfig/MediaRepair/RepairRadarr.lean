/-
# The Radarr adapter and the stabilization clock

A Radarr case carries no planning fingerprint, so its sources are compared by
the case identifier. Before a pending import is repaired, the sources must have
been unchanged for the stabilization time, which `Ready` checks before a run
and `authorize` checks again on fresh evidence. Both read the clock of the
stored job.
-/

import NixConfig.MediaRepair.Jobs.Stability

namespace NixConfig.MediaRepair.RepairRadarr

open Semantics Jobs

/-- The job `Observe` reports for a queue entry: the case identifier and the
encoded evidence of its inspection, or the error of a failed one. -/
def observedJob (queueID : Int) (downloadID title : String)
    (inspected : Except String (String × List UInt8)) : Job :=
  let job :=
    { Job.zero .radarr with queueID := queueID, downloadID := downloadID, title := title }
  match inspected with
  | .error text => { job with collectionError := text }
  | .ok (caseID, evidence) =>
    { job with sourceFingerprint := caseID, evidence := some evidence }

/-- `Ready`; `tracked` decodes the tracked download state of stored evidence. -/
def ready (tracked : RawMessage → Option String) (stabilization : Duration) (now : Time)
    (job : Job) : Bool :=
  match tracked job.evidence with
  | none => false
  | some state => state ≠ "importPending" ∨ now - job.stableSince ≥ stabilization

/-- A fresh inspection, as far as authorization reads it. -/
structure Fresh where
  downloadID : String
  trackedDownloadState : String
  /-- `SameCaseState` with the stored evidence. -/
  sameCaseState : Bool

/-- What `authorize` learns from its collaborators. -/
structure Lookups where
  /-- Decoding the stored evidence and the plan. -/
  evidence : Except String Unit
  decision : Except String Unit
  readQueue : Except String (List QueueKey)
  inspect : Int → Except String Fresh
  /-- Why `executioncheck.Authorize` rejects the decision under a runtime
  tolerance, and why `ReplacementRejection` does, if they do. -/
  rejection : Fresh → Int → Option String
  replacement : Fresh → Option String

/-- Why `authorize` gives up: an error, or a reason that blocks the job. -/
inductive Refusal
  | failed (text : String)
  | blocked (reason : String)
  deriving DecidableEq, Repr

/-- The checks of `authorize` on a fresh inspection. -/
def authorizeFresh (lookups : Lookups) (stabilization : Duration) (now : Time) (job : Job)
    (fresh : Fresh) : Except Refusal Fresh :=
  if fresh.downloadID ≠ job.downloadID ∨ !fresh.sameCaseState then
    .error (.blocked "source or queue identity changed; collect a new plan")
  else if fresh.trackedDownloadState = "importPending" ∧
      now - job.stableSince < stabilization then
    .error (.blocked "source is still stabilizing")
  else
    match lookups.rejection fresh job.runtimeToleranceMS with
    | some reason => .error (.blocked ("decision rejected: " ++ reason))
    | none =>
      match lookups.replacement fresh with
      | some reason => .error (.blocked reason)
      | none => .ok fresh

/-- The queue entry `authorize` inspects: the one that follows the job. -/
def followedEntry (job : Job) (keys : List QueueKey) : Except Refusal QueueKey :=
  match matchQueue job.queueKey keys with
  | .error failure => .error (.blocked failure.text)
  | .ok none => .error (.blocked "download is no longer queued")
  | .ok (some index) => .ok (keys.getD index job.queueKey)

/-- `authorize`. -/
def authorize (lookups : Lookups) (stabilization : Duration) (now : Time) (job : Job) :
    Except Refusal Fresh := do
  lookups.evidence.mapError .failed
  lookups.decision.mapError .failed
  let keys ← lookups.readQueue.mapError .failed
  let entry ← followedEntry job keys
  let fresh ← (lookups.inspect entry.queueID).mapError .failed
  authorizeFresh lookups stabilization now job fresh

variable {stabilization : Duration} {now : Time} {job : Job} {lookups : Lookups}

theorem stable_of_ready {tracked : RawMessage → Option String}
    (hready : ready tracked stabilization now job = true)
    (hpending : tracked job.evidence = some "importPending") :
    stabilization ≤ now - job.stableSince := by
  rw [ready, hpending] at hready
  simpa using hready

/-- A fresh inspection that passes is the one returned, and a pending import is
stable by the job's clock. -/
theorem authorizeFresh_ok {fresh answer : Fresh}
    (hpassed : authorizeFresh lookups stabilization now job fresh = .ok answer) :
    answer = fresh ∧ (fresh.trackedDownloadState = "importPending" →
      stabilization ≤ now - job.stableSince) := by
  unfold authorizeFresh at hpassed
  split_ifs at hpassed with _ hstable
  refine ⟨?_, fun hpending => not_lt.mp fun hlt => hstable ⟨hpending, hlt⟩⟩
  split at hpassed
  · cases hpassed
  split at hpassed
  · cases hpassed
  cases hpassed
  rfl

theorem stable_of_authorize {fresh : Fresh}
    (hauthorized : authorize lookups stabilization now job = .ok fresh)
    (hpending : fresh.trackedDownloadState = "importPending") :
    stabilization ≤ now - job.stableSince := by
  simp only [authorize, bind_eq_ok] at hauthorized
  obtain ⟨⟨⟩, -, ⟨⟩, -, keys, -, entry, -, inspected, -, hpassed⟩ := hauthorized
  obtain ⟨rfl, hstable⟩ := authorizeFresh_ok hpassed
  exact hstable hpending

/-! ## Sources are never taken to be stable for longer than they were seen so -/

/-- Where different sources are observed only on jobs whose clock they restart,
the clock of a job starts no earlier than the first of the latest observations
that all saw its current sources; so neither `Ready` nor `authorize` lets a
pending import pass before these sources were seen for the stabilization time. -/
theorem stable_no_longer_than_seen [JSONSerializer] {store : Store} {past : List (Store × Call)} {id : JobID}
    (hrun : Reaches Store.Commits Store.empty past store)
    (hunplanned : ∀ entry ∈ past, Store.ObservesUnplanned id entry.1 entry.2)
    (hrestarts : ∀ entry ∈ past, Store.RestartsClock id entry.1 entry.2) {job first : Job}
    (hjob : store.jobs.find id = some job)
    (hfirst : (Store.trailing id job.sourceFingerprint past).getLast? = some first) :
    first.updatedAt ≤ job.stableSince ∧
    (∀ tracked stabilization now, ready tracked stabilization now job = true →
      tracked job.evidence = some "importPending" → stabilization ≤ now - first.updatedAt) ∧
    ∀ lookups stabilization now fresh, authorize lookups stabilization now job = .ok fresh →
      fresh.trackedDownloadState = "importPending" → stabilization ≤ now - first.updatedAt := by
  have hclock : first.updatedAt ≤ job.stableSince :=
    (Store.clocked_of_reaches hrun hunplanned hrestarts).started job hjob first hfirst
  refine ⟨hclock, fun tracked stabilization now hready hpending => ?_,
    fun lookups stabilization now fresh hauthorized hpending => ?_⟩
  · exact (stable_of_ready hready hpending).trans (Int.sub_le_sub_left hclock now)
  · exact (stable_of_authorize hauthorized hpending).trans (Int.sub_le_sub_left hclock now)

attribute [local instance] compactSerializer

/-- A case with the given sources, observed at a time. -/
def sampleCase (sources : String) (at_ : Time) : Job :=
  { observedJob 7 "d" "" (.ok (sources, [0x30])) with updatedAt := at_ }

/-- The sources change once. -/
def changedCalls : List Call :=
  [.observe (sampleCase "old" 1), .observe (sampleCase "new" 5), .observe (sampleCase "new" 9)]

theorem stable_no_longer_than_seen_changed :
    ∃ past store job, execute Store.next [] Store.empty changedCalls = some (past, store) ∧
      store.jobs.find 1 = some job ∧ job.sourceFingerprint = "new" ∧
      (Store.trailing 1 "new" past).getLast? = some (sampleCase "new" 5) ∧
      (sampleCase "new" 5).updatedAt ≤ job.stableSince :=
  ⟨_, _, _, rfl, rfl, rfl, rfl,
    (@stable_no_longer_than_seen _ _ _ 1
      (Reaches.execute Store.commits_of_next changedCalls .start rfl)
      (by decide) (by decide) _ _ rfl rfl).1⟩

/-- The sources change while the job is removed; the entry comes back, and an
operator asks to reconsider it. -/
def staleClockCalls : List Call :=
  [.observe (sampleCase "old" 1), .reconcileQueue .radarr [] 2, .observe (sampleCase "new" 100),
    .reconcileQueue .radarr [⟨7, "d"⟩] 101, .requestAction 1 .reconsider "" 0 102,
    .finishPlanning { sampleCase "new" 103 with id := 1, revision := 1, state := .ready }]

/-- Sources first seen at `100` pass at `103` as stable for longer than `50`. -/
theorem stale_clock_taken_for_stable :
    ∃ past store job, execute Store.next [] Store.empty staleClockCalls = some (past, store) ∧
      (∀ entry ∈ past, Store.ObservesUnplanned 1 entry.1 entry.2) ∧
      store.jobs.find 1 = some job ∧ job.state = .ready ∧ job.sourceFingerprint = "new" ∧
      Store.trailing 1 "new" past = [sampleCase "new" 100] ∧ job.stableSince = 1 ∧
      ready (fun _ => some "importPending") 50 103 job = true :=
  ⟨_, _, _, rfl, by decide, rfl, rfl, rfl, rfl, rfl, rfl⟩

end NixConfig.MediaRepair.RepairRadarr
