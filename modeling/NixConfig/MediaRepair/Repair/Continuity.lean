/-
# What stays, what is left alone, and what goes on

Three laws of the repair system over whole runs, with its goroutines, the
requests of operators and crashes in any order.

The record is append-only: a job stays the job of its download, its revision
only grows, its evidence is not lost, and an attempt that has ended is never
written again. The goroutines of one service leave the jobs of the other one
alone. And no crash leaves a job in the air: from every state that is reached,
a run of the engine takes an interrupted attempt to its end, and an import that
was confirmed meanwhile to its receipt, if the receipt is JSON.
-/

import NixConfig.MediaRepair.Jobs.History
import NixConfig.MediaRepair.Jobs.Queue
import NixConfig.MediaRepair.Repair.Confirmation
import NixConfig.MediaRepair.Repair.Exclusion

namespace NixConfig.MediaRepair.Jobs

open Data Semantics

variable {store store' later : Store} {call : Call} {job row : Job}

/-! ## The record is append-only -/

/-- What a later store still has of an earlier one: every job, of the same download
and with its evidence, and every attempt, unchanged if it had ended. -/
structure Store.Keeps (store later : Store) : Prop where
  job : ∀ id job, store.jobs.find id = some job → ∃ row, later.jobs.find id = some row ∧
    Continues job row ∧ row.downloadID = job.downloadID ∧
    (job.evidence ≠ none → row.evidence ≠ none)
  attempt : ∀ key attempt, store.attempts.find key = some attempt → ∃ now,
    later.attempts.find key = some now ∧ now.plan = attempt.plan ∧
    now.startedAt = attempt.startedAt ∧ (attempt.state.active = false → now = attempt)

namespace Store

theorem Keeps.refl (store : Store) : store.Keeps store where
  job _ job hjob := ⟨job, hjob, ⟨rfl, rfl, le_rfl⟩, rfl, fun h => h⟩
  attempt _ attempt hfind := ⟨attempt, hfind, rfl, rfl, fun _ => rfl⟩

theorem Keeps.trans (hfirst : store.Keeps store') (hsecond : store'.Keeps later) :
    store.Keeps later where
  job id job hjob := by
    obtain ⟨row, hrow, hrows, hdownload, hevidence⟩ := hfirst.job id job hjob
    obtain ⟨last, hlast, hlasts, hdownload', hevidence'⟩ := hsecond.job id row hrow
    exact ⟨last, hlast, ⟨hlasts.id.trans hrows.id, hlasts.service.trans hrows.service,
      hrows.revision_le.trans hlasts.revision_le⟩, hdownload'.trans hdownload,
      fun h => hevidence' (hevidence h)⟩
  attempt key attempt hfind := by
    obtain ⟨now, hnow, hplan, hstarted, hended⟩ := hfirst.attempt key attempt hfind
    obtain ⟨last, hlast, hplan', hstarted', hended'⟩ := hsecond.attempt key now hnow
    refine ⟨last, hlast, hplan'.trans hplan, hstarted'.trans hstarted, fun hidle => ?_⟩
    obtain rfl := hended hidle
    exact hended' hidle

variable [JSONSerializer]

/-- A committed call keeps what there is: `Start` gives a new number, and `UpdateAttempt`
writes an attempt that is under way. -/
theorem Keeps.apply (law : store.Agreement) (marshalled : store.Marshalled)
    (hcall : store.apply call = .ok store') (hbrought : MarshalledEvidence call) :
    store.Keeps store' where
  job id job hjob := by
    obtain ⟨row, hrow, hcases⟩ := exists_row_of_apply hcall hjob
    refine ⟨row, hrow, ?_, ?_,
      evidence_of_apply hcall hbrought (marshalled.evidence id job hjob) hjob hrow⟩ <;>
      rcases hcases with rfl | hchange
    · exact ⟨rfl, rfl, le_rfl⟩
    · exact hchange.leaves.toContinues
    · rfl
    · exact hchange.leaves.downloadID
  attempt key attempt hfind := by
    rcases (after_of_apply hcall).attempts with ⟨-, hattempts⟩ |
      ⟨job, at_, rfl, hjob, -, -, -, hattempts⟩ |
      ⟨written, previous, job, row, rfl, hfound, hactive, -, -, -, hattempts⟩
    · exact ⟨attempt, hattempts ▸ hfind, rfl, rfl, fun _ => rfl⟩
    · refine ⟨attempt, ?_, rfl, rfl, fun _ => rfl⟩
      rw [hattempts, Table.find_save_of_ne, hfind]
      rintro rfl
      cases hfind.symm.trans (Repair.find_lastNumber_succ law hjob)
    · have hkey : previous.key = written.key := Table.key_of_find hfound
      rw [hattempts, Table.find_save]
      split_ifs with hsame
      · obtain rfl : attempt = previous := by
          rw [show key = written.key from hsame.trans hkey, hfound] at hfind
          exact (Option.some.inj hfind).symm
        refine ⟨_, rfl, rfl, rfl, fun hidle => ?_⟩
        rw [hidle] at hactive
        cases hactive
      · exact ⟨attempt, hfind, rfl, rfl, fun _ => rfl⟩

end Store

end NixConfig.MediaRepair.Jobs

namespace NixConfig.MediaRepair.Repair

open Data Semantics Jobs

section Runs

variable [JSONSerializer]

theorem Work.marshalled_of_call {work : Work} {service : Service} {now : Time} {call : Call}
    (hcall : work.call service now = some call) : Store.MarshalledEvidence call := by
  unfold Work.call at hcall
  split at hcall <;> cases hcall
  · trivial
  · rename_i observed _ _
    exact observed.marshalled
  · trivial
  · trivial

namespace System

variable {system system' : System} {event : SystemEvent} {past : List (System × SystemEvent)}

/-- Only observed jobs bring evidence. -/
theorem Cases.marshalled {call : Call} (hcases : Cases system event system')
    (hmade : call.writesAttempts = true ∨ system.call event = some call) :
    Store.MarshalledEvidence call := by
  rcases hmade with hwrites | hmade
  · cases call with
    | observe => cases hwrites
    | _ => trivial
  · unfold System.call at hmade
    split at hmade
    · exact Work.marshalled_of_call hmade
    · unfold Removal.call at hmade
      split at hmade <;> cases hmade <;> trivial
    · cases hmade
      have .request hrequest _ := hcases
      cases call with
      | observe => cases hrequest
      | _ => trivial
    · cases hmade

/-- Whatever a run once had on record it still has. -/
theorem record_append_only (hrun : Reaches Step init past system) :
    ∀ entry ∈ past, entry.1.store.Keeps system.store := by
  refine Reaches.invariant (fun past system => ∀ entry ∈ past, entry.1.store.Keeps system.store)
    hrun (fun _ hmem => by cases hmem) ?_
  intro past system event system' hrun hlaw hstep
  have hkeeps : system.store.Keeps system'.store := by
    have sound := sound_of_reaches hrun
    have hcases := cases_of_step hstep
    rcases hcases.step (orderly_of_reaches hrun) sound with hsame | ⟨call, hcall, hmade⟩
    · rw [hsame]
      exact .refl _
    · exact .apply sound.agreement sound.marshalled hcall.2 (hcases.marshalled hmade)
  exact List.forall_mem_cons.mpr ⟨hkeeps, fun entry hmem => (hlaw entry hmem).trans hkeeps⟩

end System

end Runs

namespace System

attribute [local instance] compactSerializer

theorem record_append_only_removing : ∃ past system,
    execute next [] init removingEvents = some (past, system) ∧ past.length = 9 ∧
      ∀ entry ∈ past, entry.1.store.Keeps system.store :=
  ⟨_, _, rfl, rfl,
    record_append_only (Reaches.execute (fun _ _ _ hnext => hnext) removingEvents .start rfl)⟩

end System

/-! ## Services are isolated -/

/-- What a call is about: the queue of a service, or one job. -/
def target : Call → Service ⊕ JobID
  | .observe observed => .inl observed.service
  | .reconcileQueue service .. => .inl service
  | .requestReconsideration expected .. => .inr expected.id
  | .finishPlanning planned => .inr planned.id
  | .updateAttempt attempt => .inr attempt.jobID
  | .finishRemoval requested .. => .inr requested.id
  | .setPlan id .. | .requestAction id .. | .start id .. | .startRemoval id .. => .inr id

theorem Removal.target_of_call {action : Removal} {now : Time} {call : Call}
    (hcall : action.call now = some call) : ∃ id ∈ action.held, target call = .inr id := by
  unfold Removal.call at hcall
  split at hcall <;> cases hcall <;> exact ⟨_, List.mem_cons_self, rfl⟩

section Runs

variable [JSONSerializer]

/-- A call changes only rows that it is about. -/
theorem target_of_change {store : Store} {call : Call} {job row : Job}
    (change : Change store call job row) :
    target call = .inl job.service ∨ target call = .inr job.id := by
  cases change with
  | @observe _ observed _ found =>
    have hfound := List.find?_some found
    have hsame : job.identity = observed.identity := by simpa using hfound
    exact .inl (congrArg (Sum.inl ∘ Prod.fst) hsame.symm)
  | reconsider asks =>
    cases asks with
    | page => exact .inr rfl
    | inbox same => exact .inr (congrArg Sum.inr same)
  | follow same | drop same => exact .inl (congrArg Sum.inl same)
  | setPlan _ same | finishPlanning _ same | delete same | start same | updateAttempt same
  | startRemoval same | finishRemoval same => exact .inr (congrArg Sum.inr same)

theorem Work.target_of_call {work : Work} {service : Service} {now : Time} {call : Call}
    (hcall : work.call service now = some call) :
    target call = .inl service ∨ ∃ id ∈ work.held, target call = .inr id := by
  unfold Work.call at hcall
  split at hcall <;> cases hcall
  · exact .inl rfl
  · exact .inl rfl
  · exact .inr ⟨_, List.mem_cons_self, rfl⟩
  · exact .inr ⟨_, List.mem_cons_self, rfl⟩

/-- A move of a goroutine of the service. -/
def SystemEvent.IsOf (service : Service) : SystemEvent → Prop
  | .work mover _ | .action mover _ => mover = service
  | _ => False

namespace System

variable {system system' : System} {event : SystemEvent} {past : List (System × SystemEvent)}
  {service : Service} {id : JobID}

/-- The call is about the queue of the service or about one of its jobs. -/
def Within (store : Store) (service : Service) (call : Call) : Prop :=
  target call = .inl service ∨ ∃ id, Owned store service id ∧ target call = .inr id

/-- A call within a service leaves the jobs of the other one alone. -/
theorem Within.find {store store' : Store} {call : Call} {job : Job}
    (within : Within store service call) (hcall : store.apply call = .ok store')
    (hjob : store.jobs.find id = some job) (hother : job.service ≠ service) :
    store'.jobs.find id = some job ∧
      ∀ k, store'.attempts.find (id, k) = store.attempts.find (id, k) := by
  -- a call about a job is about one of the service, and a job has one owner
  have hne {about : JobID} (htarget : target call = .inr about) : id ≠ about := by
    rintro rfl
    rcases within with hservice | ⟨owned, howned, howner⟩
    · cases htarget.symm.trans hservice
    · cases htarget.symm.trans howner
      exact hother (Owned.unique ⟨job, hjob, rfl⟩ howned)
  refine ⟨?_, fun k => ?_⟩
  · obtain ⟨row, hrow, rfl | hchange⟩ := Store.exists_row_of_apply hcall hjob
    · exact hrow
    rcases target_of_change hchange with htarget | htarget
    · rcases within with hservice | ⟨owned, -, howner⟩
      · cases htarget.symm.trans hservice
        exact absurd rfl hother
      · cases htarget.symm.trans howner
    · exact absurd (Table.key_of_find hjob).symm (hne htarget)
  · rcases (Store.after_of_apply hcall).attempts with ⟨-, hattempts⟩ |
      ⟨started, at_, rfl, -, -, -, -, hattempts⟩ |
      ⟨written, previous, -, row, rfl, hfound, -, -, -, -, hattempts⟩
    · rw [hattempts]
    · rw [hattempts, Table.find_save_of_ne]
      exact fun hkey => hne rfl (congrArg Prod.fst hkey)
    · rw [hattempts, Table.find_save_of_ne]
      have hkey : previous.key = written.key := Table.key_of_find hfound
      exact fun heq => hne rfl (congrArg Prod.fst (heq.trans hkey))

/-- A goroutine writes nothing or makes a call within its service. -/
theorem Cases.within (hcases : Cases system event system') (hevent : event.IsOf service)
    (orderly : system.Orderly) (sound : system.engine.Sound) :
    system'.store = system.store ∨ ∃ call, system.store.apply call = .ok system'.store ∧
      Within system.store service call := by
  cases hcases with
  | proceed => exact .inl rfl
  | commit calls applied =>
    obtain rfl := hevent
    refine .inr ⟨_, applied, (Work.target_of_call calls).imp_right ?_⟩
    rintro ⟨id, hheld, htarget⟩
    exact ⟨id, orderly.work _ id hheld, htarget⟩
  | run standing advanced =>
    obtain rfl := hevent
    obtain ⟨hheld, hframe, -⟩ := orderly.running standing
    have howned := orderly.work _ _ hheld
    cases (advance_cases advanced).effect sound.agreement
        fun other hmem => sound.holds _ other (hframe.trans hmem) with
    | none => exact .inl rfl
    | start _ hcall =>
      exact .inr ⟨.start _ _, map_eq_ok.mpr ⟨_, hcall, rfl⟩, .inr ⟨_, howned, rfl⟩⟩
    | update _ _ hcall _ _ _ _ hrow hkey =>
      exact .inr ⟨.updateAttempt _, hcall, .inr ⟨_, howned,
        congrArg Sum.inr (congrArg Prod.fst ((Attempt.key_row hrow).symm.trans hkey))⟩⟩
  | action removed =>
    obtain rfl := hevent
    rcases removed.store_eq with hsame | ⟨_, _, call, -, hmade, hcall⟩
    · exact .inl hsame
    · obtain ⟨id, hheld, htarget⟩ := Removal.target_of_call hmade
      exact .inr ⟨call, hcall, .inr ⟨id, orderly.action _ id hheld, htarget⟩⟩
  | request | crash => cases hevent

/-- Whatever a goroutine of one service does, in any state that is reached, the jobs of the
other service and their attempts stay as they are. -/
theorem services_isolated (hrun : Reaches Step init past system)
    (hstep : system.Step event system') (hevent : event.IsOf service) {job : Job}
    (hjob : system.store.jobs.find id = some job) (hother : job.service ≠ service) :
    system'.store.jobs.find id = some job ∧
      ∀ k, system'.store.attempts.find (id, k) = system.store.attempts.find (id, k) := by
  have hwithin := (cases_of_step hstep).within hevent (orderly_of_reaches hrun)
    (sound_of_reaches hrun)
  rcases hwithin with hsame | ⟨call, hcall, within⟩
  · rw [hsame]
    exact ⟨hjob, fun _ => rfl⟩
  · exact within.find hcall hjob hother

end System

end Runs

namespace System

attribute [local instance] compactSerializer

/-- The other service observes a queue entry of the same number. -/
def reconcilingEvents : List SystemEvent :=
  removingEvents ++ [.work .lidarr .observe, .work .lidarr (.observed ⟨[], [⟨0, ""⟩], []⟩)]

theorem services_isolated_reconciling : ∃ past system system' job,
    execute next [] init reconcilingEvents = some (past, system) ∧
      system.Step (.work .lidarr (.commit 4 true)) system' ∧
      system.store.jobs.find 1 = some job ∧ job.service = .radarr ∧
      system'.store.jobs.find 1 = some job ∧
      ∀ k, system'.store.attempts.find (1, k) = system.store.attempts.find (1, k) := by
  refine ⟨_, _, _, _, rfl, rfl, rfl, rfl, ?_⟩
  exact services_isolated
    (Reaches.execute (fun _ _ _ hnext => hnext) reconcilingEvents .start rfl)
    (show Step _ (.work .lidarr (.commit 4 true)) _ from rfl)
    (show SystemEvent.IsOf .lidarr _ from rfl) rfl (by decide)

end System

end NixConfig.MediaRepair.Repair

/-! ## A crash leaves no job behind -/

namespace NixConfig.MediaRepair.Jobs

open Data Semantics

variable {store store' : Store} {call : Call} {job row : Job}

section Runs

variable [JSONSerializer]

theorem Change.identity_eq (change : Change store call job row)
    (hcall : ∀ service present at_, call ≠ .reconcileQueue service present at_) :
    row.identity = job.identity :=
  Prod.ext change.leaves.service (Prod.ext (change.leaves.queueID hcall) change.leaves.downloadID)

namespace Store

/-- Every call keeps the unique index. -/
theorem Distinct.apply (hdistinct : store.Distinct) (hcall : store.apply call = .ok store') :
    store'.Distinct := by
  by_cases hqueue : ∀ service present at_, call ≠ .reconcileQueue service present at_
  · rw [distinct_iff] at hdistinct ⊢
    -- a row has the identity of the row it comes from, or one that was free
    have horigin {row : Job} (hrow : row ∈ store'.jobs.rows) :
        (∃ job ∈ store.jobs.rows, job.id = row.id ∧ job.identity = row.identity) ∨
        row.id = store.nextID ∧ ∀ job ∈ store.jobs.rows, job.identity ≠ row.identity := by
      rcases row_of_apply hcall (Table.mem_rows_iff.mp hrow) with hfind |
        ⟨observed, -, hnone, -, _, _, -, -, rfl⟩ | ⟨job, hfind, hchange⟩
      · exact .inl ⟨row, Table.mem_of_find hfind, rfl, rfl⟩
      · refine .inr ⟨rfl, fun job hjob hsame => ?_⟩
        exact List.find?_eq_none.mp hnone job hjob (decide_eq_true hsame)
      · exact .inl ⟨job, Table.mem_of_find hfind, Table.key_of_find hfind,
          (hchange.identity_eq hqueue).symm⟩
    intro first hfirst second hsecond hsame
    refine List.inj_on_of_nodup_map store'.jobs.nodup hfirst hsecond ?_
    rcases horigin hfirst with ⟨job, hjob, hid, hidentity⟩ | ⟨hid, hfree⟩ <;>
      rcases horigin hsecond with ⟨other, hother, hid', hidentity'⟩ | ⟨hid', hfree'⟩
    · rw [← hid, ← hid', hdistinct job hjob other hother (by rw [hidentity, hsame, hidentity'])]
    · exact absurd (hidentity.trans hsame) (hfree' job hjob)
    · exact absurd (hidentity'.trans hsame.symm) (hfree other hother)
    · rw [hid, hid']
  · push Not at hqueue
    obtain ⟨service, present, at_, rfl⟩ := hqueue
    exact distinct_of_reconcileJobs hdistinct hcall

/-- An attempt that is under way can be written, when it can be marshalled. -/
theorem Distinct.updateAttempt (hdistinct : store.Distinct) {attempt previous saved : Attempt}
    (hfind : store.attempts.find attempt.key = some previous)
    (hactive : previous.state.active = true) (hjob : store.jobs.find attempt.jobID = some job)
    (hrow : attempt.row = .ok saved) :
    store.updateAttempt attempt = .ok { store with
      jobs := store.jobs.save (attemptedJob job attempt)
      attempts := store.attempts.save (overwriteAttempt previous saved) } := by
  have hfree : ∀ other ∈ store.jobs.rows, other.id ≠ job.id → other.identity ≠ job.identity :=
    fun other hother hne hsame =>
      hne (congrArg Job.id (distinct_iff.mp hdistinct other hother job (Table.mem_of_find hjob) hsame))
  have hguard : ¬ (store.jobs.rows.any fun other =>
      other.id ≠ job.id ∧ other.identity = job.identity) = true := by
    simpa using hfree
  simp only [Store.updateAttempt, hfind, hactive, hrow, first, hjob]
  exact if_neg hguard

/-- A copy that differs from the stored attempt only in what `UpdateAttempt` writes is
stored, and its job moves with it. -/
theorem Distinct.overwrite (hdistinct : store.Distinct) {attempt written saved : Attempt}
    (hfind : store.attempts.find attempt.key = some attempt) (hread : attempt.row = .ok attempt)
    (hactive : attempt.state.active = true) (hjob : store.jobs.find attempt.jobID = some job)
    (hsame : overwriteAttempt attempt written = written) (hrow : written.row = .ok saved) :
    ∃ store', store.updateAttempt written = .ok store' ∧
      store'.attempts.find attempt.key = some saved ∧
      store'.jobs.find job.id = some (attemptedJob job saved) := by
  have hkey : written.key = attempt.key := by
    rw [← hsame]
    rfl
  have hid : written.jobID = attempt.jobID := congrArg Prod.fst hkey
  refine ⟨_, hdistinct.updateAttempt (hkey ▸ hfind) hactive (hid ▸ hjob) hrow, ?_, ?_⟩
  · rw [Repair.overwrite_row hread hsame hrow, ← hkey, ← Attempt.key_row hrow,
      Table.find_save_self]
  · obtain ⟨_, _, -, -, rfl⟩ := Attempt.row_eq_ok.mp hrow
    exact Table.find_save_self _ (attemptedJob job written)

end Store

end Runs

end NixConfig.MediaRepair.Jobs

namespace NixConfig.MediaRepair.Repair.Engine

open Data Semantics Jobs

variable {engine : Engine} {past : List (Engine × EngineEvent)} {id : JobID} {job : Job}

section Runs

variable [JSONSerializer]

theorem distinct_of_reaches (hrun : Reaches Step init past engine) : engine.store.Distinct := by
  refine Reaches.invariant (fun _ engine => engine.store.Distinct) hrun List.nodup_nil ?_
  intro past engine event engine' hrun hdistinct hstep
  cases cases_of_step hstep with
  | engine hadvance =>
    rcases hadvance.store_eq with rfl | ⟨call, hcall⟩
    · exact hdistinct
    · exact hdistinct.apply hcall
  | other _ hissued => exact hdistinct.apply hissued.2
  | crash => exact hdistinct

/-- A crash, and the next run of a job: it reads the job and its attempt, asks what
became of an import that was begun, and stores the answer. -/
def recovery (id : JobID) (state : State) (answer : Except String ImportStatus)
    (clock later now : Time) : List EngineEvent :=
  [.crash, .engine id .run, .engine id .got, .engine id (.loaded now)] ++
    (if state = .running then [] else [.engine id (.checked answer clock later now)]) ++
    [.engine id (.commit now true)]

/-- An answer whose receipt, if there is one, is JSON. -/
def Marshals (answer : Except String ImportStatus) : Prop :=
  ∀ status, answer = .ok status → ∃ receipt, status.receipt.column = .ok receipt

/-- What `reconcile` makes of such an answer can be stored. -/
theorem exists_row_reconciled {attempt : Attempt} {answer : Except String ImportStatus}
    (hread : attempt.row = .ok attempt) (hanswer : Marshals answer) (clock later now : Time) :
    ∃ saved, (reconciled attempt answer clock later now).row = .ok saved := by
  obtain ⟨request, receipt, hrequest, hreceipt, -⟩ := Attempt.row_eq_ok.mp hread
  rw [← (sameImport_reconciled attempt answer clock later now).importRequest] at hrequest
  rcases receipt_reconciled attempt answer clock later now with hkept | ⟨status, hok, hnew⟩
  · exact ⟨_, Attempt.row_eq_ok.mpr ⟨request, receipt, hrequest, hkept ▸ hreceipt, rfl⟩⟩
  · obtain ⟨receipt, hreceipt⟩ := hanswer status hok
    exact ⟨_, Attempt.row_eq_ok.mpr ⟨request, receipt, hrequest, hnew ▸ hreceipt, rfl⟩⟩

/-- Wherever the process stops, the next run of a job that was under way goes through: it
ends an attempt that had not begun to import, and settles the others by what `CheckImport`
answers, so that a receipt makes the job imported. The answer has to be one whose receipt
can be stored. -/
theorem crash_recovers (hrun : Reaches Step init past engine)
    (hjob : engine.store.jobs.find id = some job) (hworking : job.state.working = true)
    {answer : Except String ImportStatus} (hanswer : Marshals answer) (clock later now : Time) :
    ∃ attempt ended store, engine.store.lastAttempt id = some attempt ∧
      (execute next past engine (recovery id job.state answer clock later now)).map Prod.snd =
        some ⟨store, fun _ => none⟩ ∧
      store.attempts.find attempt.key = some ended ∧
      store.jobs.find id = some (Store.attemptedJob job ended) ∧
      (job.state = .running → ended =
        finished attempt .failed "repair interrupted before import; reconsider to retry" now) ∧
      (job.state = .importing → (reconciled attempt answer clock later now).row = .ok ended ∧
        ∀ status, answer = .ok status → status.receipt.len ≠ 0 →
          ended.state = .imported ∧ status.receipt.column = .ok ended.importReceipt) := by
  have sound := sound_of_reaches hrun
  obtain ⟨n, agrees⟩ := sound.agreement.agrees id job hjob
  -- Jobs and attempts agree, so a working job has an attempt in the same state, the latest one.
  obtain ⟨attempt, hfind, hstate, -⟩ := agrees.covered hworking
  obtain rfl : job.id = id := Table.key_of_find hjob
  have hlast : engine.store.lastAttempt job.id = some attempt :=
    agrees.numbered.lastAttempt_eq.trans hfind
  have hread : attempt.row = .ok attempt := sound.marshalled.attempt _ attempt hfind
  have hkey : attempt.key = (job.id, n) := Table.key_of_find hfind
  have hid : attempt.jobID = job.id := congrArg Prod.fst hkey
  have hget : engine.store.get job.id = .ok job := Store.first_eq_ok.mpr hjob
  have hload : engine.store.latestAttempt job.id = .ok attempt := by
    rw [Store.latestAttempt, hlast]
  -- `UpdateAttempt` on it succeeds: it is active, and no other job has the identity of its job.
  have hwrite {written saved : Attempt} :=
    @(distinct_of_reaches hrun).overwrite _ _ _ attempt written saved (hkey ▸ hfind) hread
      (State.active_of_working (hstate ▸ hworking)) (hid ▸ hjob)
  cases hworks : job.state with
  | running =>
    -- the run loads the attempt and finishes it, without asking the adapter
    have hrow : (finished attempt .failed "repair interrupted before import; reconsider to retry"
        now).row = .ok (finished attempt .failed
          "repair interrupted before import; reconsider to retry" now) := by
      obtain ⟨_, _, hrequest, hreceipt, heq⟩ := Attempt.row_eq_ok.mp hread
      exact Attempt.row_eq_ok.mpr ⟨_, _, hrequest, hreceipt, by rw [heq]; rfl⟩
    obtain ⟨store, hcall, hattempt, hrow⟩ := hwrite (overwrite_finished attempt ..) hrow
    refine ⟨attempt, _, store, hlast, ?_, hattempt, hrow, fun _ => rfl, fun h => by cases h⟩
    simp [recovery, execute, next, advance, hget, hload, afterGet, afterLoad, hstate, hworks, hcall]
  | importing =>
    -- the run asks the adapter and stores what `reconcile` makes of the answer
    obtain ⟨saved, hsaved⟩ := exists_row_reconciled hread hanswer clock later now
    obtain ⟨store, hcall, hattempt, hrow⟩ := hwrite (overwrite_reconciled attempt ..) hsaved
    refine ⟨attempt, saved, store, hlast, ?_, hattempt, hrow, (fun h => by cases h),
      fun _ => ⟨hsaved, ?_⟩⟩
    · simp [recovery, execute, next, advance, hget, hload, afterGet, afterLoad, hstate, hworks, hcall]
    · rintro status rfl hreceipt
      obtain ⟨_, _, -, hcolumn, rfl⟩ := Attempt.row_eq_ok.mp hsaved
      simp only [reconciled, if_pos hreceipt] at hcolumn ⊢
      exact ⟨trivial, hcolumn⟩
  | _ =>
    rw [hworks] at hworking
    cases hworking

end Runs

attribute [local instance] compactSerializer

theorem crash_recovers_submitted : ∃ past engine attempt ended store,
    execute next [] init submittedEvents = some (past, engine) ∧
      engine.store.lastAttempt 1 = some attempt ∧ attempt.state = .importing ∧
      (execute next past engine (recovery 1 .importing (.ok ⟨ascii "[8]", ""⟩) 6 6 6)).map Prod.snd =
        some ⟨store, fun _ => none⟩ ∧
      store.attempts.find attempt.key = some ended ∧ ended.state = .imported := by
  obtain ⟨attempt, ended, store, hlast, hrun, hended, -, -, himported⟩ := @crash_recovers _ _ 1 _ _
    (Reaches.execute (fun _ _ _ hnext => hnext) submittedEvents .start rfl) rfl rfl
    (.ok ⟨ascii "[8]", ""⟩) (fun _ hok => by cases hok; exact ⟨_, rfl⟩) 6 6 6
  refine ⟨_, _, attempt, ended, store, rfl, hlast, ?_, hrun, hended, ?_⟩
  · cases hlast
    rfl
  · exact ((himported rfl).2 _ rfl (by decide)).1

end NixConfig.MediaRepair.Repair.Engine
