/-
# Removing queue tracking

`RemoveTracking` finds the queue row of a job, deletes it and looks whether the
download is gone. A row is found by its queue identifier and download, or else
by the download alone, if one row has it; the check afterwards knows only the
download. A round that fails is repeated, so what is safe in one round can be
undone by the next: once the row of a job is deleted, a row that another job
has for the same download is the only one left, and the next round follows it.

The rounds are those of the action goroutine, over a queue that nothing else
changes. Reading the queue may fail, and deleting a row may fail before or after
the row is gone.
-/

import NixConfig.Data.Strings
import NixConfig.MediaRepair.Jobs.Queue
import NixConfig.MediaRepair.Repair.Scheduler

namespace NixConfig.MediaRepair.Repair

open Data Semantics Jobs

/-! ## The queue -/

/-- A queue row, as `queuefinalize` reads it. -/
structure Entry where
  queueID : Int
  downloadID : String
  subjectID : Int
  status : String
  trackedDownloadStatus : String
  deriving DecidableEq, Repr

def Entry.queueKey (entry : Entry) : QueueKey := ⟨entry.queueID, entry.downloadID⟩

def Entry.eligible (entry : Entry) : Bool :=
  let trimmed := trimSpace (bytes entry.downloadID)
  0 < entry.queueID && trimmed ≠ [] && trimmed = bytes entry.downloadID && 0 < entry.subjectID &&
    entry.status = "completed" && entry.trackedDownloadStatus = "warning"

theorem Entry.downloadID_ne_of_eligible {entry : Entry} (heligible : entry.eligible) :
    entry.downloadID ≠ "" := by
  intro hempty
  rw [Entry.eligible, hempty] at heligible
  simp [bytes, trimSpace] at heligible

/-- A queue: rows under their identifiers. -/
abbrev Queue := Table Entry.queueID

/-- What the service answers in one round; an answer that is present is an
error. -/
structure Answers where
  /-- The first reading of the queue. -/
  read : Option String
  /-- The deletion, with whether the row is gone in spite of the error. -/
  finalize : Option (String × Bool)
  /-- The second reading of the queue. -/
  reread : Option String

/-- A round in which the service does not fail. -/
def Answers.complete (answers : Answers) : Prop :=
  answers.read = none ∧ answers.finalize = none ∧ answers.reread = none

def changedText : String := "queue identity or completion status changed; removal not performed"

def presentText : String := "queue removal accepted but the item is still present"

/-- The part of `RemoveTracking` that deletes the selected row. -/
def finalizeSelected (answers : Answers) (queue : Queue) (downloadID : String) (selected : Entry) :
    Queue × Option String :=
  match answers.finalize with
  | some (error, gone) => (if gone then queue.erase selected.queueID else queue, some error)
  | none =>
    let remaining := queue.erase selected.queueID
    match answers.reread with
    | some error => (remaining, some error)
    | none =>
      (remaining,
        if remaining.rows.any fun entry => entry.downloadID = downloadID then some presentText
        else none)

/-- `RemoveTracking`: the queue afterwards, and the text of the error. -/
def removeTracking (answers : Answers) (queue : Queue) (job : Job) : Queue × Option String :=
  match answers.read with
  | some error => (queue, some error)
  | none =>
    match matchQueue job.queueKey (queue.rows.map Entry.queueKey) with
    | .error error => (queue, some error.text)
    | .ok none => (queue, none)
    | .ok (some position) =>
      match queue.rows[position]? with
      -- Go would panic here, but the position is always one of the queue's.
      | none => (queue, some "index out of range")
      | some selected =>
        if selected.eligible then finalizeSelected answers queue job.downloadID selected
        else (queue, some changedText)

/-! ## Which row is followed -/

/-- As long as a row of the download is in the queue, some row is followed. -/
theorem isSome_of_matchQueue {wanted : QueueKey} {candidates : List QueueKey}
    {result : Option Nat} (hdownload : wanted.downloadID ≠ "")
    (hmem : ∃ candidate ∈ candidates, candidate.downloadID = wanted.downloadID)
    (hmatch : matchQueue wanted candidates = .ok result) : result.isSome := by
  obtain ⟨candidate, hcandidate, hsame⟩ := hmem
  cases matched_of_matchQueue hmatch with
  | itself => rfl
  | only => rfl
  | none _ hother => exact absurd ⟨hdownload, hsame⟩ (hother candidate hcandidate)

/-! ## One round -/

section Round

variable {answers : Answers} {queue : Queue} {job : Job} {row : Entry}

theorem mem_keys {queue : Queue} {key : QueueKey} :
    key ∈ queue.rows.map Entry.queueKey ↔ ∃ entry ∈ queue.rows, entry.queueKey = key :=
  List.mem_map

/-- A job with a row in the queue is matched with this row. -/
theorem exists_selected (hrow : row ∈ queue.rows) (hkey : row.queueKey = job.queueKey) :
    ∃ position, matchQueue job.queueKey (queue.rows.map Entry.queueKey) = .ok (some position) ∧
      queue.rows[position]? = some row ∧ row.queueID = job.queueID := by
  obtain ⟨position, hmatch, hat⟩ := matchQueue_of_mem (mem_keys.mpr ⟨row, hrow, hkey⟩)
  -- The row at that position has the key of the job, and so is its row.
  obtain ⟨selected, hselected, hsame⟩ : ∃ selected, queue.rows[position]? = some selected ∧
      selected.queueKey = job.queueKey := by
    simpa using hat
  obtain rfl : selected = row :=
    List.inj_on_of_nodup_map queue.nodup (List.mem_of_getElem? hselected) hrow
      (congrArg QueueKey.queueID (hsame.trans hkey.symm))
  exact ⟨position, hmatch, hselected, congrArg QueueKey.queueID hkey⟩

/-- With its row in the queue, a round deletes this row or nothing, and nothing
if the row is not eligible. -/
theorem queue_of_removeTracking (hrow : row ∈ queue.rows) (hkey : row.queueKey = job.queueKey) :
    (removeTracking answers queue job).1 = queue ∨
      (row.eligible ∧ (removeTracking answers queue job).1 = queue.erase job.queueID) := by
  obtain ⟨position, hmatch, hselected, hid⟩ := exists_selected hrow hkey
  rw [removeTracking]
  split
  · exact .inl rfl
  · rw [hmatch]
    dsimp only
    rw [hselected]
    dsimp only
    split_ifs with heligible
    · have hfinal : (finalizeSelected answers queue job.downloadID row).1 = queue ∨
          (finalizeSelected answers queue job.downloadID row).1 = queue.erase row.queueID := by
        rw [finalizeSelected]
        split
        · split
          · exact .inr rfl
          · exact .inl rfl
        · split <;> exact .inr rfl
      rw [hid] at hfinal
      exact hfinal.imp_right fun herase => ⟨heligible, herase⟩
    · exact .inl rfl

/-- Without a row of the download, a round changes nothing. -/
theorem removeTracking_of_forall
    (hother : ∀ entry ∈ queue.rows, entry.downloadID ≠ job.downloadID) :
    (removeTracking answers queue job).1 = queue ∧
      (answers.read = none → (removeTracking answers queue job).2 = none) := by
  have hmatch : matchQueue job.queueKey (queue.rows.map Entry.queueKey) = .ok none := by
    refine matchQueueFrom_of_forall (fun candidate hmem => ?_) 0 none
    obtain ⟨entry, hentry, rfl⟩ := mem_keys.mp hmem
    exact hother entry hentry
  rw [removeTracking]
  split
  · rename_i hread
    exact ⟨rfl, fun hnone => by cases hread.symm.trans hnone⟩
  · rw [hmatch]
    exact ⟨rfl, fun _ => rfl⟩

/-- A complete round that succeeds while the queue has a row of the download
has deleted a row of the queue. -/
theorem erase_of_removeTracking (hcomplete : answers.complete) (hdownload : job.downloadID ≠ "")
    (hmem : ∃ entry ∈ queue.rows, entry.downloadID = job.downloadID)
    (hsuccess : (removeTracking answers queue job).2 = none) :
    ∃ selected ∈ queue.rows,
      (removeTracking answers queue job).1 = queue.erase selected.queueID := by
  obtain ⟨hread, hfinalize, hreread⟩ := hcomplete
  simp only [removeTracking, hread] at hsuccess ⊢
  rcases hmatch : matchQueue job.queueKey (queue.rows.map Entry.queueKey) with error | result
  · rw [hmatch] at hsuccess
    cases hsuccess
  · obtain ⟨entry, hentry, hsame⟩ := hmem
    have hcandidate : ∃ candidate ∈ queue.rows.map Entry.queueKey,
        candidate.downloadID = job.queueKey.downloadID :=
      ⟨entry.queueKey, mem_keys.mpr ⟨entry, hentry, rfl⟩, hsame⟩
    obtain ⟨position, rfl⟩ :=
      Option.isSome_iff_exists.mp (isSome_of_matchQueue hdownload hcandidate hmatch)
    simp only [hmatch] at hsuccess ⊢
    rcases hselected : queue.rows[position]? with _ | selected
    · simp only [hselected] at hsuccess
      cases hsuccess
    · refine ⟨selected, List.mem_of_getElem? hselected, ?_⟩
      simp only [hselected] at hsuccess ⊢
      split at hsuccess
      · rename_i heligible
        rw [if_pos heligible]
        simp only [finalizeSelected, hfinalize, hreread]
      · cases hsuccess

end Round

/-! ## Rounds of the action goroutine -/

/-- The store, the action goroutine of a service and the service's queue. -/
structure Tracking where
  store : Store
  action : Removal
  queue : Queue

inductive TrackingEvent
  /-- A move of the goroutine other than the call of `Remove`. -/
  | move (move : RemovalMove)
  /-- `Remove` runs. -/
  | remove (answers : Answers)
  | crash

namespace Tracking

def next (service : Service) (tracking : Tracking) : TrackingEvent → Option Tracking
  | .move (.removed _) => none
  | .move move =>
    (tracking.action.next service tracking.store move).map fun result =>
      { tracking with store := result.1, action := result.2 }
  | .remove answers =>
    match tracking.action with
    | .calling requested jobs =>
      let (queue, failure) := removeTracking answers tracking.queue requested
      some { tracking with queue, action := .finishing requested failure jobs }
    | _ => none
  | .crash => some { tracking with action := .idle }

def Step (service : Service) (tracking : Tracking) (event : TrackingEvent)
    (tracking' : Tracking) : Prop :=
  tracking.next service event = some tracking'

end Tracking

/-- What one event can do to the queue, the store and the goroutine. -/
inductive Tracked (service : Service) (tracking : Tracking) : TrackingEvent → Tracking → Prop
  | move {move : RemovalMove} {store : Store} {action : Removal}
      (moved : Removed service tracking.store tracking.action move store action)
      (own : ∀ failure, move ≠ .removed failure) :
      Tracked service tracking (.move move) { tracking with store, action }
  | remove {answers : Answers} {requested : Job} {jobs : List Job}
      (calling : tracking.action = .calling requested jobs) :
      Tracked service tracking (.remove answers)
        { tracking with
          queue := (removeTracking answers tracking.queue requested).1
          action :=
            .finishing requested (removeTracking answers tracking.queue requested).2 jobs }
  | crash : Tracked service tracking .crash { tracking with action := .idle }

theorem tracked_of_step {service : Service} {tracking tracking' : Tracking}
    {event : TrackingEvent} (hstep : tracking.Step service event tracking') :
    Tracked service tracking event tracking' := by
  rw [Tracking.Step] at hstep
  cases event with
  | move move =>
    have hmove : ∀ failure, move ≠ .removed failure := by
      rintro failure rfl
      cases hstep
    rw [Tracking.next] at hstep
    · obtain ⟨⟨store, action⟩, hnext, rfl⟩ := Option.map_eq_some_iff.mp hstep
      exact .move (removed_of_next hnext) hmove
    · exact hmove
  | remove answers =>
    rw [Tracking.next] at hstep
    split at hstep
    · rename_i requested jobs hcalling
      cases hstep
      exact .remove hcalling
    · cases hstep
  | crash =>
    cases hstep
    exact .crash

/-! ## The removal of one job -/

/-- A job whose removal is requested, as the only one of its service. -/
structure Pending (service : Service) (store : Store) (job : Job) : Prop where
  stored : store.jobs.find job.id = some job
  service_eq : job.service = service
  asked : job.pendingAction = .delete
  running : job.state ≠ .running
  importing : job.state ≠ .importing
  only : ∀ other ∈ store.list service, other.pendingAction = .delete → other.id = job.id
  /-- The unique index of the database. -/
  indexed : ∀ first ∈ store.jobs.rows, ∀ second ∈ store.jobs.rows,
    first.identity = second.identity → first.id = second.id

/-- The start of rounds that remove a job whose row is in the queue. -/
structure Requested (service : Service) (start : Tracking) (job : Job) (row : Entry) : Prop where
  idle : start.action = .idle
  pending : Pending service start.store job
  listed : row ∈ start.queue.rows
  key : row.queueKey = job.queueKey

/-- The job is stored under its queue key, and no other job of the service is
to be removed. -/
structure Aimed (service : Service) (job : Job) (store : Store) : Prop where
  same : ∀ stored, store.jobs.find job.id = some stored →
    stored.queueKey = job.queueKey ∧ stored.service = service
  only : ∀ other ∈ store.list service, other.pendingAction = .delete → other.id = job.id

/-- The goroutine is about to remove this job, if any. -/
def Removal.AimedAt (job : Job) : Removal → Prop
  | .idle => True
  | .listed jobs => ∀ other ∈ jobs, other.pendingAction = .delete → other.id = job.id
  | .starting id jobs =>
    id = job.id ∧ ∀ other ∈ jobs, other.pendingAction = .delete → other.id = job.id
  | .calling requested jobs | .finishing requested _ jobs =>
    (requested.id = job.id ∧ requested.queueKey = job.queueKey) ∧
      ∀ other ∈ jobs, other.pendingAction = .delete → other.id = job.id

section Aimed

variable {service : Service} {job : Job} {store : Store}

theorem Pending.aimed (hpending : Pending service store job) : Aimed service job store := by
  refine ⟨fun stored hfind => ?_, hpending.only⟩
  cases hpending.stored.symm.trans hfind
  exact ⟨rfl, hpending.service_eq⟩

/-- Saving the row of the job, for the same queue entry, keeps the aim. -/
theorem Aimed.save {row : Job} (haimed : Aimed service job store) (hid : row.id = job.id)
    (hkey : row.queueKey = job.queueKey) (hservice : row.service = service) :
    Aimed service job { store with jobs := store.jobs.save row } := by
  refine ⟨fun stored hfind => ?_, fun other hmem hasked => ?_⟩
  · rw [← hid, Table.find_save_self] at hfind
    cases hfind
    exact ⟨hkey, hservice⟩
  · rw [Store.list, List.mem_filter, Table.mem_save] at hmem
    obtain ⟨rfl | ⟨hother, -⟩, hof⟩ := hmem
    · exact hid
    · exact haimed.only other (List.mem_filter.mpr ⟨hother, hof⟩) hasked

theorem aimed_of_removed {action action' : Removal} {move : RemovalMove} {store' : Store}
    (hmoved : Removed service store action move store' action') (haimed : Aimed service job store)
    (haction : action.AimedAt job) : Aimed service job store' ∧ action'.AimedAt job := by
  cases hmoved with
  | list => exact ⟨haimed, haimed.only⟩
  | skip => exact ⟨haimed, fun other hmem => haction other (List.mem_cons_of_mem _ hmem)⟩
  | take hasked =>
    exact ⟨haimed, haction _ List.mem_cons_self hasked,
      fun other hmem => haction other (List.mem_cons_of_mem _ hmem)⟩
  | started hcall =>
    obtain ⟨rfl, hjobs⟩ := haction
    obtain ⟨stored, hfind, -, -, -, rfl, rfl⟩ := Store.startRemoval_ok hcall
    obtain ⟨hkey, hservice⟩ := haimed.same stored hfind
    have hid : stored.id = job.id := Table.key_of_find hfind
    refine ⟨haimed.save hid hkey hservice, ?_⟩
    split
    · exact ⟨⟨hid, hkey⟩, hjobs⟩
    · trivial
  | unstarted => exact ⟨haimed, haction.2⟩
  | answered => exact ⟨haimed, haction⟩
  | finished hcall =>
    rename_i requested failure jobs now reported
    obtain ⟨⟨hid, -⟩, hjobs⟩ := haction
    obtain ⟨stored, hfind, -, -, rfl⟩ := Store.finishRemoval_ok hcall
    rw [hid] at hfind
    obtain ⟨hkey, hservice⟩ := haimed.same stored hfind
    have hsame : (Store.removalFinished stored failure now).id = stored.id ∧
        (Store.removalFinished stored failure now).queueKey = stored.queueKey ∧
        (Store.removalFinished stored failure now).service = stored.service := by
      unfold Store.removalFinished
      split <;> exact ⟨rfl, rfl, rfl⟩
    exact ⟨haimed.save (hsame.1.trans (Table.key_of_find hfind)) (hsame.2.1.trans hkey)
      (hsame.2.2.trans hservice), hjobs⟩
  | unfinished => exact ⟨haimed, haction.2⟩
  | leave => exact ⟨haimed, trivial⟩
  | abandon => exact ⟨haimed, trivial⟩

variable {start tracking : Tracking} {row : Entry} {past : List (Tracking × TrackingEvent)}

theorem aimed_of_reaches (hstart : Requested service start job row)
    (hrun : Reaches (Tracking.Step service) start past tracking) :
    Aimed service job tracking.store ∧ tracking.action.AimedAt job := by
  refine hrun.invariant (fun _ tracking =>
    Aimed service job tracking.store ∧ tracking.action.AimedAt job) ?_ ?_
  · exact ⟨hstart.pending.aimed, by rw [hstart.idle]; trivial⟩
  · intro past tracking event tracking' _ hlaw hstep
    cases tracked_of_step hstep with
    | move hmoved => exact aimed_of_removed hmoved hlaw.1 hlaw.2
    | remove hcalling => exact ⟨hlaw.1, by rw [hcalling] at hlaw; exact hlaw.2⟩
    | crash => exact ⟨hlaw.1, trivial⟩

end Aimed

/-! ## Only its own row -/

/-- In every state that the rounds lead to: every other row is still there;
once the row of the job is gone, a complete round succeeds; and a successful
round ends with the job removed. -/
def OwnRowOnly (service : Service) (start : Tracking) (job : Job) : Prop :=
  ∀ past tracking, Reaches (Tracking.Step service) start past tracking →
    (∀ entry ∈ start.queue.rows, entry.queueID ≠ job.queueID → entry ∈ tracking.queue.rows) ∧
    (∀ requested jobs answers, tracking.queue.find job.queueID = none →
      tracking.action = .calling requested jobs → answers.complete →
      (removeTracking answers tracking.queue requested).2 = none) ∧
    (∀ requested jobs now reported tracking', tracking.action = .finishing requested none jobs →
      tracking.Step service (.move (.commit now reported)) tracking' →
      (tracking'.store.jobs.find job.id).map Job.state = some .removed)

section OwnRow

variable {service : Service} {job : Job} {start tracking : Tracking} {row : Entry}
  {past : List (Tracking × TrackingEvent)}

section Alone

variable (hstart : Requested service start job row)
  (halone : row.eligible → ∀ entry ∈ start.queue.rows,
    entry.downloadID = job.downloadID → entry = row)
include hstart halone

/-- Where the job's row is the only one of its download, deleting it leaves
none. -/
theorem forall_erase_ne (heligible : row.eligible) :
    ∀ entry ∈ (start.queue.erase job.queueID).rows, entry.downloadID ≠ job.downloadID := by
  intro entry hmem hsame
  obtain ⟨hentry, hne⟩ := Table.mem_erase.mp hmem
  obtain rfl := halone heligible entry hentry hsame
  exact hne (congrArg QueueKey.queueID hstart.key)

/-- Without another row of the download, the queue loses the row of the job or
nothing. -/
theorem queue_of_reaches (hrun : Reaches (Tracking.Step service) start past tracking) :
    tracking.queue = start.queue ∨
      (row.eligible ∧ tracking.queue = start.queue.erase job.queueID) := by
  refine hrun.invariant (fun _ tracking => tracking.queue = start.queue ∨
    (row.eligible ∧ tracking.queue = start.queue.erase job.queueID)) (.inl rfl) ?_
  intro past tracking event tracking' hrun hqueue hstep
  have haimed := (aimed_of_reaches hstart hrun).2
  cases tracked_of_step hstep with
  | move => exact hqueue
  | crash => exact hqueue
  | @remove answers requested jobs hcalling =>
    rw [hcalling] at haimed
    obtain ⟨⟨-, hkey⟩, -⟩ := haimed
    have hid : requested.queueID = job.queueID := congrArg QueueKey.queueID hkey
    have hdownload : requested.downloadID = job.downloadID := congrArg QueueKey.downloadID hkey
    rcases hqueue with hsame | ⟨heligible, herased⟩
    · have hround : (removeTracking answers start.queue requested).1 = start.queue ∨
          (row.eligible ∧ (removeTracking answers start.queue requested).1 =
            start.queue.erase requested.queueID) :=
        queue_of_removeTracking hstart.listed (hstart.key.trans hkey.symm)
      rw [hid] at hround
      simpa only [hsame] using hround
    · have hnone := forall_erase_ne hstart halone heligible
      rw [← hdownload] at hnone
      have hround : (removeTracking answers (start.queue.erase job.queueID) requested).1 =
          start.queue.erase job.queueID := (removeTracking_of_forall hnone).1
      exact .inr ⟨heligible, by simpa only [herased] using hround⟩

end Alone

/-- The end of a successful round marks the job as removed. -/
theorem removed_of_commit (hstart : Requested service start job row)
    (hrun : Reaches (Tracking.Step service) start past tracking) {requested : Job}
    {jobs : List Job} {now : Time} {reported : Bool} {tracking' : Tracking}
    (haction : tracking.action = .finishing requested none jobs)
    (hstep : tracking.Step service (.move (.commit now reported)) tracking') :
    (tracking'.store.jobs.find job.id).map Job.state = some .removed := by
  have haimed := (aimed_of_reaches hstart hrun).2
  rw [haction] at haimed
  obtain ⟨⟨hid, -⟩, -⟩ := haimed
  have .move hmoved _ := tracked_of_step hstep
  rw [haction] at hmoved
  have .finished hcall := hmoved
  obtain ⟨stored, hfind, -, -, rfl⟩ := Store.finishRemoval_ok hcall
  have hstored : stored.id = requested.id := Table.key_of_find hfind
  have hfinished : (Store.removalFinished stored none now).id = job.id := hstored.trans hid
  rw [← hfinished, Table.find_save_self]
  rfl

/-! ### Reaching the second round -/

/-- With the unique index in force, a requested removal starts. -/
theorem Pending.startRemoval {store : Store} (hpending : Pending service store job) (now : Time) :
    store.startRemoval job.id now =
      .ok ({ store with jobs := store.jobs.save (Store.removingJob job now) },
        Store.removingJob job now) := by
  have hsave : store.saveJob (Store.removingJob job now) =
      .ok { store with jobs := store.jobs.save (Store.removingJob job now) } := by
    rw [Store.saveJob, if_neg]
    intro hany
    obtain ⟨other, hmem, hother⟩ := List.any_eq_true.mp hany
    obtain ⟨hne, hsame⟩ := of_decide_eq_true hother
    exact hne (hpending.indexed other hmem job (Table.mem_of_find hpending.stored) hsame)
  rw [Store.startRemoval, Store.first, hpending.stored]
  simp only [bind, Except.bind]
  rw [if_neg (by simp [hpending.asked, hpending.running, hpending.importing]), hsave]
  rfl

/-- The job stays pending while its removal is in progress. -/
theorem Pending.removing {store : Store} (hpending : Pending service store job) (now : Time) :
    Pending service { store with jobs := store.jobs.save (Store.removingJob job now) }
      (Store.removingJob job now) := by
  have horigin : ∀ {other : Job}, other ∈ (store.jobs.save (Store.removingJob job now)).rows →
      ∃ before ∈ store.jobs.rows, before.id = other.id ∧ before.identity = other.identity := by
    intro other hmem
    rcases Table.mem_save.mp hmem with rfl | ⟨hother, -⟩
    · exact ⟨job, Table.mem_of_find hpending.stored, rfl, rfl⟩
    · exact ⟨other, hother, rfl, rfl⟩
  refine ⟨Table.find_save_self _ _, hpending.service_eq, hpending.asked, by simp [Store.removingJob],
    by simp [Store.removingJob], ?_, ?_⟩
  · have hremoving : (Store.removingJob job now).id = job.id := rfl
    exact (hpending.aimed.save hremoving rfl hpending.service_eq).only
  · intro first hfirst second hsecond hsame
    obtain ⟨first', hfirst', hid, hidentity⟩ := horigin hfirst
    obtain ⟨second', hsecond', hid', hidentity'⟩ := horigin hsecond
    rw [← hid, ← hid']
    exact hpending.indexed first' hfirst' second' hsecond'
      (hidentity.trans (hsame.trans hidentity'.symm))

/-- The goroutine passes the jobs before the one to remove. -/
theorem reaches_starting {before after : List Job} {listed : Job}
    (hbefore : ∀ other ∈ before, other.pendingAction ≠ .delete)
    (hasked : listed.pendingAction = .delete)
    (hrun : Reaches (Tracking.Step service) start past tracking)
    (haction : tracking.action = .listed (before ++ listed :: after)) :
    ∃ past', Reaches (Tracking.Step service) start past'
      { tracking with action := .starting listed.id after } := by
  induction before generalizing past tracking with
  | nil =>
    have hstep : tracking.Step service (.move (.turn listed.retryAt))
        { tracking with action := .starting listed.id after } := by
      simp [Tracking.Step, Tracking.next, haction, Removal.next, hasked]
    exact ⟨_, hrun.next hstep⟩
  | cons other before ih =>
    have hstep : tracking.Step service (.move (.turn 0))
        { tracking with action := .listed (before ++ listed :: after) } := by
      simp [Tracking.Step, Tracking.next, haction, Removal.next,
        hbefore other List.mem_cons_self]
    have hpassed := ih (fun other hmem => hbefore other (List.mem_cons_of_mem _ hmem))
      (hrun.next hstep) rfl
    simpa only using hpassed

/-- From where the goroutine is idle, it can come to call `Remove` for the
pending job. -/
theorem reaches_calling (hpending : Pending service tracking.store job)
    (hrun : Reaches (Tracking.Step service) start past tracking)
    (hidle : tracking.action = .idle) :
    ∃ past' tracking' jobs, Reaches (Tracking.Step service) start past' tracking' ∧
      tracking'.action = .calling (Store.removingJob job 0) jobs ∧
      tracking'.queue = tracking.queue ∧
      Pending service tracking'.store (Store.removingJob job 0) := by
  have hlisted : job ∈ tracking.store.list service :=
    List.mem_filter.mpr ⟨Table.mem_of_find hpending.stored, by simp [hpending.service_eq]⟩
  obtain ⟨before, after, hsplit⟩ := List.append_of_mem hlisted
  have hnodup : ((before ++ job :: after).map Job.id).Nodup := by
    rw [← hsplit]
    exact tracking.store.jobs.nodup.sublist (List.filter_sublist.map _)
  have hbefore : ∀ other ∈ before, other.pendingAction ≠ .delete := by
    intro other hmem hasked
    have hin : other ∈ tracking.store.list service := by
      rw [hsplit]
      exact List.mem_append_left _ hmem
    -- Two rows with one identifier would be one row of the table.
    rw [List.map_append, List.map_cons, List.nodup_append] at hnodup
    exact hnodup.2.2 _ (List.mem_map_of_mem hmem) _ List.mem_cons_self
      (hpending.only other hin hasked)
  have hlist : tracking.Step service (.move .list)
      { tracking with action := .listed (before ++ job :: after) } := by
    simp [Tracking.Step, Tracking.next, hidle, Removal.next, hsplit]
  obtain ⟨past', hstarting⟩ := reaches_starting hbefore hpending.asked (hrun.next hlist) rfl
  have hcommit : Tracking.Step service { tracking with action := .starting job.id after }
      (.move (.commit 0 true))
      { tracking with
        store := { tracking.store with
          jobs := tracking.store.jobs.save (Store.removingJob job 0) }
        action := .calling (Store.removingJob job 0) after } := by
    simp only [Tracking.Step, Tracking.next, Removal.next, hpending.startRemoval]
    rfl
  exact ⟨_, _, after, hstarting.next hcommit, rfl, rfl, hpending.removing 0⟩

/-- A round that calls `Remove`, as one step. -/
theorem reaches_remove {requested : Job} {jobs : List Job} (answers : Answers)
    (hrun : Reaches (Tracking.Step service) start past tracking)
    (hcalling : tracking.action = .calling requested jobs) :
    Reaches (Tracking.Step service) start ((tracking, .remove answers) :: past)
      { tracking with
        queue := (removeTracking answers tracking.queue requested).1
        action := .finishing requested (removeTracking answers tracking.queue requested).2 jobs } :=
  hrun.next (by simp [Tracking.Step, Tracking.next, hcalling])

theorem reaches_crash (hrun : Reaches (Tracking.Step service) start past tracking) :
    Reaches (Tracking.Step service) start ((tracking, .crash) :: past)
      { tracking with action := .idle } :=
  hrun.next rfl

/-- A round in which nothing fails. -/
def quiet : Answers := ⟨none, none, none⟩

theorem quiet_complete : quiet.complete := ⟨rfl, rfl, rfl⟩

/-- A quiet round deletes an eligible row that is in the queue. -/
theorem removeTracking_quiet {queue : Queue} (hrow : row ∈ queue.rows)
    (hkey : row.queueKey = job.queueKey) (heligible : row.eligible) :
    (removeTracking quiet queue job).1 = queue.erase job.queueID := by
  obtain ⟨position, hmatch, hselected, hid⟩ := exists_selected hrow hkey
  simp only [removeTracking, quiet, hmatch, hselected, heligible, finalizeSelected, hid, if_true]

/-- **Removal touches only its own row** exactly if no other row has the
download, or the row of the job is not eligible and so is never deleted. -/
theorem removal_touches_own_row_iff (hstart : Requested service start job row) :
    OwnRowOnly service start job ↔
      (row.eligible → ∀ entry ∈ start.queue.rows,
        entry.downloadID = job.downloadID → entry = row) := by
  constructor
  · intro hown heligible entry hentry hsame
    by_contra hother
    have hid : row.queueID = job.queueID := congrArg QueueKey.queueID hstart.key
    have hne : entry.queueID ≠ job.queueID := fun heq =>
      hother (List.inj_on_of_nodup_map start.queue.nodup hentry hstart.listed (heq.trans hid.symm))
    have hdownload : job.downloadID ≠ "" := by
      have hrow : row.downloadID = job.downloadID := congrArg QueueKey.downloadID hstart.key
      rw [← hrow]
      exact Entry.downloadID_ne_of_eligible heligible
    -- The first round deletes the row of the job.
    obtain ⟨past, first, jobs, hfirst, hcalling, hqueue, hpending⟩ :=
      reaches_calling hstart.pending .start hstart.idle
    have hkey : row.queueKey = (Store.removingJob job 0).queueKey := hstart.key
    have hdeleted : (removeTracking quiet start.queue (Store.removingJob job 0)).1 =
        start.queue.erase job.queueID := removeTracking_quiet hstart.listed hkey heligible
    have hremoved := reaches_remove quiet hfirst hcalling
    rw [hqueue, hdeleted] at hremoved
    -- Before its result is stored the process restarts, and a second round begins.
    have hcrashed := reaches_crash hremoved
    dsimp only at hcrashed
    have hpending' : Pending service
        ({ first with queue := start.queue.erase job.queueID, action := .idle } : Tracking).store
        (Store.removingJob job 0) := hpending
    obtain ⟨past', second, jobs', hsecond, hcalling', hqueue', -⟩ :=
      reaches_calling hpending' hcrashed rfl
    have hgone : second.queue.find job.queueID = none := by
      rw [hqueue']
      exact Table.find_eq_none.mpr fun other hmem => (Table.mem_erase.mp hmem).2
    have hstays : entry ∈ second.queue.rows := (hown _ _ hsecond).1 entry hentry hne
    have hsuccess := (hown _ _ hsecond).2.1 _ _ quiet hgone hcalling' quiet_complete
    -- A second success means that another row was deleted.
    have hdownload' : (Store.removingJob (Store.removingJob job 0) 0).downloadID ≠ "" := hdownload
    obtain ⟨selected, hselected, herase⟩ :=
      erase_of_removeTracking quiet_complete hdownload' ⟨entry, hstays, hsame⟩ hsuccess
    rw [hqueue'] at hselected
    obtain ⟨hin, hselected'⟩ := Table.mem_erase.mp hselected
    have hlast := (hown _ _ (reaches_remove quiet hsecond hcalling')).1 selected hin hselected'
    dsimp only at hlast
    rw [herase] at hlast
    exact (Table.mem_erase.mp hlast).2 rfl
  · intro halone past tracking hrun
    have hqueue := queue_of_reaches hstart halone hrun
    refine ⟨?_, ?_, fun _ _ _ _ _ => removed_of_commit hstart hrun⟩
    · intro entry hentry hne
      rcases hqueue with hsame | ⟨-, herased⟩
      · rw [hsame]
        exact hentry
      · rw [herased]
        exact Table.mem_erase.mpr ⟨hentry, hne⟩
    · intro requested jobs answers hgone hcalling hcomplete
      have haimed := (aimed_of_reaches hstart hrun).2
      rw [hcalling] at haimed
      have hdownload : requested.downloadID = job.downloadID :=
        congrArg QueueKey.downloadID haimed.1.2
      have hid : row.queueID = job.queueID := congrArg QueueKey.queueID hstart.key
      rcases hqueue with hsame | ⟨heligible, herased⟩
      · rw [hsame, Table.find_eq_none] at hgone
        exact absurd hid (hgone row hstart.listed)
      · have hnone := forall_erase_ne hstart halone heligible
        rw [← hdownload, ← herased] at hnone
        exact (removeTracking_of_forall hnone).2 hcomplete.1

end OwnRow

/-! ### Two albums of one download -/

def albumJob : Job :=
  { Job.zero .lidarr with
    id := 1, queueID := 10, downloadID := "download", inQueue := true, pendingAction := .delete,
    state := .blocked }

/-- A row of the download that can be removed. -/
def albumRow (queueID : Int) : Entry := ⟨queueID, "download", 1, "completed", "warning"⟩

def albumStore : Store := { Store.empty with jobs := Store.empty.jobs.save albumJob }

def albumTracking (queue : Queue) : Tracking := ⟨albumStore, .idle, queue⟩

theorem album_pending : Pending .lidarr albumStore albumJob := by
  constructor <;> decide

/-- The row of the job, and one of another download. -/
def oneAlbum : Queue :=
  (Table.empty.save (albumRow 10)).save ⟨30, "other", 1, "completed", "warning"⟩

theorem one_album_removed :
    (albumRow 10).eligible = true ∧ OwnRowOnly .lidarr (albumTracking oneAlbum) albumJob := by
  have hstart : Requested .lidarr (albumTracking oneAlbum) albumJob (albumRow 10) :=
    ⟨rfl, album_pending, by decide, rfl⟩
  exact ⟨by decide, (removal_touches_own_row_iff hstart).mpr (by decide)⟩

/-- The row of the job, and one of another album of the same download. -/
def twoAlbums : Queue := (Table.empty.save (albumRow 10)).save (albumRow 20)

/-- Two rounds, five minutes apart. -/
def twoRounds : List TrackingEvent :=
  [.move .list, .move (.turn 0), .move (.commit 0 true), .remove quiet, .move (.commit 0 true),
    .crash, .move .list, .move (.turn (5 * minute)), .move (.commit (5 * minute) true),
    .remove quiet]

/-- The second round deletes the row of the other album. -/
theorem second_album_deleted :
    Requested .lidarr (albumTracking twoAlbums) albumJob (albumRow 10) ∧
      ¬ OwnRowOnly .lidarr (albumTracking twoAlbums) albumJob := by
  refine ⟨⟨rfl, album_pending, by decide, rfl⟩, fun hown => ?_⟩
  obtain ⟨past, tracking, hexecute, hrows⟩ : ∃ past tracking,
      execute (Tracking.next .lidarr) [] (albumTracking twoAlbums) twoRounds =
        some (past, tracking) ∧ tracking.queue.rows = [] := ⟨_, _, rfl, by decide⟩
  have hstart : Reaches (Tracking.Step .lidarr) (albumTracking twoAlbums) []
      (albumTracking twoAlbums) := .start
  have hrun := Reaches.execute (fun _ _ _ hnext => hnext) twoRounds hstart hexecute
  have hstays := (hown _ _ hrun).1 (albumRow 20) (by decide) (by decide)
  rw [hrows] at hstays
  cases hstays

end NixConfig.MediaRepair.Repair
