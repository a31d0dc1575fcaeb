/-
# What a committed call does to a row

Every law of the store is a law of its rows, so the transactions are inverted
once. `Change` lists what a committed call can have done to one job row, each
case with the guard the transaction checked. `Store.after_of_apply` says that a
row after a call is the row before it, a row just created, or the result of one
`Change`; attempts and planning results are written by few calls.
-/

import NixConfig.MediaRepair.Jobs.Planning
import NixConfig.Semantics.Fallible

namespace NixConfig.MediaRepair.Jobs

open Data Semantics

/-- A call that asks to reconsider the job `id`, from its page or from the
inbox. -/
inductive Call.AsksReconsider (id : JobID) (guidance : String) (tolerance : Int) (at_ : Time) :
    Call → Prop
  | page : AsksReconsider id guidance tolerance at_ (.requestAction id .reconsider guidance tolerance at_)
  | inbox {expected : Job} (same : expected.id = id) :
      AsksReconsider id guidance tolerance at_
        (.requestReconsideration expected guidance tolerance at_)

/-- The calls that write a plan. -/
def Call.writesPlan : Call → Bool
  | .observe .. | .setPlan .. | .finishPlanning .. => true
  | _ => false

/-- The calls that write attempts. -/
def Call.writesAttempts : Call → Bool
  | .start .. | .updateAttempt .. => true
  | _ => false

namespace Store

variable {store store' : Store}

theorem first_eq_ok {id : JobID} {job : Job} :
    store.first id = .ok job ↔ store.jobs.find id = some job := by
  unfold first
  cases store.jobs.find id <;> simp

theorem eq_of_saveJob {job : Job} (hsave : store.saveJob job = .ok store') :
    store' = { store with jobs := store.jobs.save job } := by
  unfold saveJob at hsave
  split_ifs at hsave
  exact (Except.ok.inj hsave).symm

/-! ## Writes that leave the other tables alone -/

/-- Jobs and attempts are the same. -/
def SameTables (store store' : Store) : Prop :=
  store'.jobs = store.jobs ∧ store'.attempts = store.attempts

theorem sameTables_rememberPlanning (store : Store) (job : Job) :
    SameTables store (store.rememberPlanning job) := by
  unfold rememberPlanning
  split <;> exact ⟨rfl, rfl⟩

theorem sameTables_bootstrapPlanning (store : Store) (job observed : Job) :
    SameTables store (store.bootstrapPlanning job observed).1 := by
  unfold bootstrapPlanning
  split
  · dsimp only
    split
    · exact store.sameTables_rememberPlanning _
    · exact ⟨rfl, rfl⟩
  · exact ⟨rfl, rfl⟩

theorem sameTables_observePlanning (store : Store) (job observed : Job) :
    SameTables store (store.observePlanning job observed).1 := by
  have hsame := store.sameTables_bootstrapPlanning job observed
  unfold observePlanning
  split
  · exact ⟨rfl, rfl⟩
  · dsimp only
    split
    · have hremember := (store.bootstrapPlanning job observed).1.sameTables_rememberPlanning
        (store.bootstrapPlanning job observed).2
      exact ⟨hremember.1.trans hsame.1, hremember.2.trans hsame.2⟩
    · exact hsame

theorem sameTables_observeJob (store : Store) (job observed : Job) :
    SameTables store (store.observeJob job observed).1 := by
  unfold observeJob
  split
  · exact sameTables_observePlanning ..
  · exact ⟨rfl, rfl⟩

/-! ## What an observation keeps -/

/-- The fields of a row that no observation writes. -/
structure SameOwner (job row : Job) : Prop where
  id : row.id = job.id
  service : row.service = job.service
  queueID : row.queueID = job.queueID
  downloadID : row.downloadID = job.downloadID
  pendingAction : row.pendingAction = job.pendingAction
  revision : row.revision = job.revision

theorem SameOwner.refl (job : Job) : SameOwner job job := ⟨rfl, rfl, rfl, rfl, rfl, rfl⟩

theorem SameOwner.trans {job middle row : Job} (first : SameOwner job middle)
    (second : SameOwner middle row) : SameOwner job row :=
  ⟨second.id.trans first.id, second.service.trans first.service,
    second.queueID.trans first.queueID, second.downloadID.trans first.downloadID,
    second.pendingAction.trans first.pendingAction, second.revision.trans first.revision⟩

theorem sameOwner_restorePlanning (job : Job) : SameOwner job (store.restorePlanning job) := by
  unfold restorePlanning
  split
  · exact .refl job
  · split
    · exact .refl job
    · dsimp only
      split <;> exact ⟨rfl, rfl, rfl, rfl, rfl, rfl⟩

theorem sameOwner_observePlanning (job observed : Job) :
    SameOwner job (store.observePlanning job observed).2.1 := by
  unfold observePlanning bootstrapPlanning
  split
  · exact .refl job
  · dsimp only
    split
    · split <;> exact ⟨rfl, rfl, rfl, rfl, rfl, rfl⟩
    · exact ⟨rfl, rfl, rfl, rfl, rfl, rfl⟩

theorem sameOwner_comparedJob (job observed : Job) (changed : Bool) :
    SameOwner job (store.comparedJob job observed changed) := by
  have hreopen : SameOwner job (reopenJob job observed) := ⟨rfl, rfl, rfl, rfl, rfl, rfl⟩
  unfold comparedJob
  split
  · exact hreopen.trans (sameOwner_restorePlanning _)
  · exact .refl job

theorem sameOwner_evidencedJob (job observed : Job) (changed : Bool) :
    SameOwner job (evidencedJob job observed changed) := by
  unfold evidencedJob
  split <;> exact ⟨rfl, rfl, rfl, rfl, rfl, rfl⟩

/-- An observation changes neither the identity of a job nor what an operator
asked of it. -/
theorem sameOwner_observeJob (job observed : Job) :
    SameOwner job (store.observeJob job observed).2 := by
  have hrefresh : SameOwner job (refreshJob job observed) := ⟨rfl, rfl, rfl, rfl, rfl, rfl⟩
  unfold observeJob
  split
  · exact hrefresh.trans ((sameOwner_observePlanning _ _).trans
      ((sameOwner_comparedJob _ _ _).trans (sameOwner_evidencedJob _ _ _)))
  · exact hrefresh

/-! ## What the rounds of the queue and the end of a removal do to the state -/

theorem state_followJob (job : Job) (present : QueueKey) :
    (followJob job present).pendingAction = job.pendingAction ∧
      ((followJob job present).state = job.state ∨
        job.state = .removed ∧ (followJob job present).state = .blocked) := by
  unfold followJob
  split_ifs with hremoved
  · exact ⟨rfl, .inr ⟨hremoved, rfl⟩⟩
  · exact ⟨rfl, .inl rfl⟩

theorem state_dropJob (job : Job) (at_ : Time) :
    ((dropJob job at_).pendingAction = job.pendingAction ∧
        (dropJob job at_).state = job.state) ∨
      job.state.active = false ∧ job.state ≠ .imported ∧ (dropJob job at_).state = .removed := by
  unfold dropJob
  split_ifs with hguard
  · exact .inr ⟨by simpa using hguard.1, hguard.2, rfl⟩
  · exact .inl ⟨rfl, rfl⟩

theorem state_removalFinished (job : Job) (failure : Option String) (at_ : Time) :
    (removalFinished job failure at_).state = .removed ∨
      (removalFinished job failure at_).state = .blocked := by
  cases failure with
  | none => exact .inl rfl
  | some text => exact .inr rfl

/-! ## Inverting the transactions that bring no message -/

variable {observed job requested row : Job} {guidance : String} {at_ : Time}
  {previous present : List QueueKey} {id : JobID} {attempt : Attempt} {index : Nat}

/-- A job row with the given identity is in the table under its identifier. -/
theorem find_of_firstByIdentity (hfound : store.firstByIdentity observed = some job) :
    store.jobs.find job.id = some job :=
  Table.mem_rows_iff.mp (List.mem_of_find?_eq_some hfound)

/-- The identifier of the job an observation belongs to, new or known. -/
def observedID (store : Store) (observed : Job) : JobID :=
  (store.firstByIdentity observed).elim store.nextID Job.id

theorem observedID_of_found (hfound : store.firstByIdentity observed = some job) :
    store.observedID observed = job.id := by
  rw [observedID, hfound]
  rfl

theorem observedID_of_new (hnew : store.firstByIdentity observed = none) :
    store.observedID observed = store.nextID := by
  rw [observedID, hnew]
  rfl

/-- The observation with evidence that a call makes of a job, if it does. -/
def observedEvidence (id : JobID) (store : Store) : Call → Option Job
  | .observe observed =>
    if observed.evidence ≠ none ∧ store.observedID observed = id then some observed else none
  | _ => none

theorem requestAction_ok {action : Action} {tolerance : Int} {expected : Option Job}
    (hcall : store.requestAction id action guidance tolerance at_ expected = .ok store') :
    ∃ job, store.jobs.find id = some job ∧ job.state.active = false ∧ job.state ≠ .removed ∧
      (action = .reconsider ∧ job.state ≠ .imported ∨ action = .delete) ∧
      store' = { store with
        jobs := store.jobs.save (requestedJob job action guidance tolerance at_) } := by
  simp only [requestAction, bind_eq_ok, first_eq_ok, ite_error_eq_ok] at hcall
  obtain ⟨job, hfind, -, hstate, himported, hcall⟩ := hcall
  push Not at hstate himported
  refine ⟨job, hfind, by simpa using hstate.1, hstate.2.1, ?_, eq_of_saveJob hcall⟩
  by_cases haction : action = .reconsider
  · exact .inl ⟨haction, himported haction⟩
  · exact .inr (hstate.2.2 haction)

theorem start_ok (hcall : store.start id at_ = .ok (store', attempt)) :
    ∃ job, store.jobs.find id = some job ∧ job.state = .ready ∧ job.pendingAction = .none ∧
      attempt = Attempt.create job (store.lastNumber id + 1) at_ ∧
      store' = { store with
        jobs := store.jobs.save (startedJob job at_)
        attempts := store.attempts.save attempt } := by
  simp only [start, bind_eq_ok, first_eq_ok, ite_error_eq_ok] at hcall
  obtain ⟨job, hfind, hguard, _, hsave, ⟨⟩⟩ := hcall
  push Not at hguard
  exact ⟨job, hfind, hguard.1, hguard.2, rfl, eq_of_saveJob hsave⟩

theorem startRemoval_ok (hcall : store.startRemoval id at_ = .ok (store', requested)) :
    ∃ job, store.jobs.find id = some job ∧ job.pendingAction = .delete ∧
      job.state ≠ .running ∧ job.state ≠ .importing ∧ requested = removingJob job at_ ∧
      store' = { store with jobs := store.jobs.save (removingJob job at_) } := by
  simp only [startRemoval, bind_eq_ok, first_eq_ok, ite_error_eq_ok] at hcall
  obtain ⟨job, hfind, hguard, _, hsave, ⟨⟩⟩ := hcall
  push Not at hguard
  exact ⟨job, hfind, hguard.1, hguard.2.1, hguard.2.2, rfl, eq_of_saveJob hsave⟩

theorem finishRemoval_ok {failure : Option String}
    (hcall : store.finishRemoval requested failure at_ = .ok store') :
    ∃ job, store.jobs.find requested.id = some job ∧ job.revision = requested.revision ∧
      job.pendingAction = .delete ∧
      store' = { store with jobs := store.jobs.save (removalFinished job failure at_) } := by
  simp only [finishRemoval, bind_eq_ok, first_eq_ok, ite_error_eq_ok] at hcall
  obtain ⟨job, hfind, hguard, hsave⟩ := hcall
  push Not at hguard
  exact ⟨job, hfind, hguard.1, hguard.2, eq_of_saveJob hsave⟩

theorem reconcileJob_ok (hcall : reconcileJob previous present at_ index job = .ok (some row)) :
    (∃ matched, matchQueue job.queueKey present = .ok (some matched) ∧
      row = followJob job (present.getD matched job.queueKey)) ∨
    (matchQueue job.queueKey present = .ok none ∧ job.inQueue = true ∧ row = dropJob job at_) := by
  unfold reconcileJob at hcall
  obtain ⟨found, hfound, hcall⟩ := bind_eq_ok.mp hcall
  cases found with
  | some matched =>
    obtain ⟨owner, -, hcall⟩ := bind_eq_ok.mp hcall
    refine .inl ⟨matched, hfound, ?_⟩
    split at hcall
    · cases hcall
    split at hcall
    · cases hcall
    exact (Option.some.inj (Except.ok.inj hcall)).symm
  | none =>
    by_cases hqueued : job.inQueue = true
    · simp only [hqueued, if_true] at hcall
      exact .inr ⟨hfound, hqueued, (Option.some.inj (Except.ok.inj hcall)).symm⟩
    · simp only [hqueued] at hcall
      cases hcall

theorem id_of_reconcileJob (hcall : reconcileJob previous present at_ index job = .ok (some row)) :
    row.id = job.id := by
  rcases reconcileJob_ok hcall with ⟨matched, -, rfl⟩ | ⟨-, -, rfl⟩
  · unfold followJob
    split <;> rfl
  · unfold dropJob
    split <;> rfl

/-- The loop of `ReconcileQueue` writes job rows only, and each row it leaves is
the one it found or the result of one round. -/
theorem reconcileJobs_ok {jobs : List Job} :
    ∀ {index : Nat} {store store' : Store},
      reconcileJobs previous present at_ jobs index store = .ok store' →
        store'.attempts = store.attempts ∧ store'.planningResults = store.planningResults ∧
        ∀ id, store'.jobs.find id = store.jobs.find id ∨
          ∃ job ∈ jobs, ∃ position row, job.id = id ∧
            reconcileJob previous present at_ position job = .ok (some row) ∧
            store'.jobs.find id = some row := by
  induction jobs with
  | nil =>
    intro index store store' hcall
    cases Except.ok.inj hcall
    exact ⟨rfl, rfl, fun id => .inl rfl⟩
  | cons job rest ih =>
    intro index store store' hcall
    unfold reconcileJobs at hcall
    obtain ⟨answer, hround, hcall⟩ := bind_eq_ok.mp hcall
    cases answer with
    | none =>
      obtain ⟨hattempts, hresults, hrows⟩ := ih hcall
      refine ⟨hattempts, hresults, fun id => ?_⟩
      rcases hrows id with hsame | ⟨other, hmem, hother⟩
      · exact .inl hsame
      · exact .inr ⟨other, List.mem_cons_of_mem _ hmem, hother⟩
    | some row =>
      obtain ⟨saved, hsave, hcall⟩ := bind_eq_ok.mp hcall
      obtain ⟨hattempts, hresults, hrows⟩ := ih hcall
      have hsaved := eq_of_saveJob hsave
      refine ⟨by rw [hattempts, hsaved], by rw [hresults, hsaved], fun id => ?_⟩
      rcases hrows id with hsame | ⟨other, hmem, hother⟩
      · rw [hsame, hsaved]
        by_cases hid : id = row.id
        · subst hid
          refine .inr ⟨job, List.mem_cons_self, index, row, ?_, hround, Table.find_save_self _ _⟩
          exact (id_of_reconcileJob hround).symm
        · exact .inl (Table.find_save_of_ne _ hid)
      · exact .inr ⟨other, List.mem_cons_of_mem _ hmem, hother⟩

theorem mem_list_iff {service : Service} :
    job ∈ store.list service ↔ store.jobs.find job.id = some job ∧ job.service = service := by
  rw [list, List.mem_filter, Table.mem_rows_iff, decide_eq_true_eq]

private theorem le_foldr_max {ids : List Nat} {id : Nat} (hmem : id ∈ ids) :
    id ≤ ids.foldr max 0 := by
  induction ids with
  | nil => cases hmem
  | cons head rest ih =>
    rcases List.mem_cons.mp hmem with rfl | hmem
    · exact le_max_left _ _
    · exact (ih hmem).trans (le_max_right _ _)

/-- No row has the identifier the next job gets. -/
theorem find_nextID (store : Store) : store.jobs.find store.nextID = none := by
  cases hfind : store.jobs.find store.nextID with
  | none => rfl
  | some job =>
    have hmem : job.id ∈ store.jobs.rows.map Job.id :=
      List.mem_map_of_mem (Table.mem_of_find hfind)
    have hlt : job.id < store.nextID := Nat.lt_succ_of_le (le_foldr_max hmem)
    exact absurd (Table.key_of_find hfind) (Nat.ne_of_lt hlt)

end Store

variable [JSONSerializer]

@[simp] theorem RawMessage.column_none : RawMessage.column none = .ok none := by
  rw [RawMessage.column, JSONSerializer.marshal_none]
  rfl

theorem RawMessage.column_eq_ok {message stored : RawMessage} :
    message.column = .ok stored ↔ JSONSerializer.marshal message = .ok stored := by
  rw [RawMessage.column, mapError_eq_ok]

/-- What was read from a column is written back as it is. -/
theorem RawMessage.column_column {message stored : RawMessage}
    (hstored : message.column = .ok stored) : stored.column = .ok stored :=
  column_eq_ok.mpr (JSONSerializer.marshal_marshal (column_eq_ok.mp hstored))

theorem Attempt.row_eq_ok {attempt row : Attempt} :
    attempt.row = .ok row ↔ ∃ importRequest importReceipt,
      attempt.importRequest.column = .ok importRequest ∧
      attempt.importReceipt.column = .ok importReceipt ∧
      row = { attempt with importRequest, importReceipt } := by
  simp only [Attempt.row, bind_eq_ok, pure, Except.pure, Except.ok.injEq, @eq_comm _ row,
    exists_and_left]

theorem Attempt.row_create (job : Job) (number : Nat) (at_ : Time) :
    (Attempt.create job number at_).row = .ok (Attempt.create job number at_) :=
  Attempt.row_eq_ok.mpr ⟨none, none, RawMessage.column_none, RawMessage.column_none, rfl⟩

theorem Attempt.state_row {attempt row : Attempt} (hrow : attempt.row = .ok row) :
    row.state = attempt.state := by
  obtain ⟨importRequest, importReceipt, -, -, rfl⟩ := Attempt.row_eq_ok.mp hrow
  rfl

theorem Attempt.key_row {attempt row : Attempt} (hrow : attempt.row = .ok row) :
    row.key = attempt.key := by
  obtain ⟨importRequest, importReceipt, -, -, rfl⟩ := Attempt.row_eq_ok.mp hrow
  rfl

/-- What a committed call did to a row it wrote, and what it had checked. -/
inductive Change (store : Store) : Call → Job → Job → Prop
  | observe {job observed : Job} {evidence : RawMessage}
      (found : store.firstByIdentity observed = some job)
      (stored : (store.observeJob job observed).2.evidence.column = .ok evidence) :
      Change store (.observe observed) job ((store.observeJob job observed).2.withEvidence evidence)
  | setPlan {job : Job} {id : JobID} {fingerprint : String} {plan stored : RawMessage}
      {guidance : String} {at_ : Time} (written : plan.column = .ok stored) (same : id = job.id)
      (source : job.sourceFingerprint = fingerprint) (idle : job.state.active = false)
      (notImported : job.state ≠ .imported) (notRemoved : job.state ≠ .removed) :
      Change store (.setPlan id fingerprint plan guidance at_) job
        (Store.readiedJob job stored guidance at_)
  | reconsider {job : Job} {call : Call} {guidance : String} {tolerance : Int} {at_ : Time}
      (asks : call.AsksReconsider job.id guidance tolerance at_)
      (idle : job.state.active = false) (notImported : job.state ≠ .imported)
      (notRemoved : job.state ≠ .removed) :
      Change store call job (Store.requestedJob job .reconsider guidance tolerance at_)
  | delete {job : Job} {id : JobID} {guidance : String} {tolerance : Int} {at_ : Time}
      (same : id = job.id) (idle : job.state.active = false) (notRemoved : job.state ≠ .removed) :
      Change store (.requestAction id .delete guidance tolerance at_) job
        (Store.requestedJob job .delete guidance tolerance at_)
  | finishPlanning {job planned : Job} {plan : RawMessage}
      (written : planned.plan.column = .ok plan) (same : planned.id = job.id)
      (revision : job.revision = planned.revision)
      (source : job.sourceFingerprint = planned.sourceFingerprint)
      (idle : job.state.active = false) (notImported : job.state ≠ .imported)
      (notRemoved : job.state ≠ .removed) :
      Change store (.finishPlanning planned) job (Store.plannedJob job { planned with plan })
  | start {job : Job} {id : JobID} {at_ : Time} (same : id = job.id)
      (ready : job.state = .ready) (unasked : job.pendingAction = .none) :
      Change store (.start id at_) job (Store.startedJob job at_)
  | updateAttempt {job : Job} {attempt previous : Attempt} (same : attempt.jobID = job.id)
      (found : store.attempts.find attempt.key = some previous)
      (active : previous.state.active = true) :
      Change store (.updateAttempt attempt) job (Store.attemptedJob job attempt)
  | startRemoval {job : Job} {id : JobID} {at_ : Time} (same : id = job.id)
      (asked : job.pendingAction = .delete) (notRunning : job.state ≠ .running)
      (notImporting : job.state ≠ .importing) :
      Change store (.startRemoval id at_) job (Store.removingJob job at_)
  | finishRemoval {job requested : Job} {failure : Option String} {at_ : Time}
      (same : requested.id = job.id) (revision : job.revision = requested.revision)
      (asked : job.pendingAction = .delete) :
      Change store (.finishRemoval requested failure at_) job
        (Store.removalFinished job failure at_)
  | follow {job : Job} {service : Service} {present : List QueueKey} {at_ : Time}
      {matched : Nat} (same : service = job.service)
      (found : matchQueue job.queueKey present = .ok (some matched)) :
      Change store (.reconcileQueue service present at_) job
        (Store.followJob job (present.getD matched job.queueKey))
  | drop {job : Job} {service : Service} {present : List QueueKey} {at_ : Time}
      (same : service = job.service) (gone : matchQueue job.queueKey present = .ok none)
      (queued : job.inQueue = true) :
      Change store (.reconcileQueue service present at_) job (Store.dropJob job at_)

variable {store : Store} {job row : Job}

/-- What every call keeps: the identifier of a row, its service, and a revision that
operators only ever raise. -/
structure Continues (job row : Job) : Prop where
  id : row.id = job.id
  service : row.service = job.service
  revision_le : job.revision ≤ row.revision

/-- The fields of a row that only observations write. -/
structure SameInput (job row : Job) : Prop where
  sourceFingerprint : row.sourceFingerprint = job.sourceFingerprint
  planningFingerprint : row.planningFingerprint = job.planningFingerprint
  stableSince : row.stableSince = job.stableSince
  evidence : row.evidence = job.evidence

/-- What a call leaves of a row: its download always, and what was observed, its place in the
queue and its plan unless the call is one that writes them. -/
structure Leaves (call : Call) (job row : Job) : Prop extends Continues job row where
  downloadID : row.downloadID = job.downloadID
  queueID : (∀ service present at_, call ≠ .reconcileQueue service present at_) →
    row.queueID = job.queueID
  sameInput : (∀ observed, call ≠ .observe observed) → SameInput job row
  plan_eq : call.writesPlan = false → row.plan = job.plan

theorem Change.leaves {call : Call} (change : Change store call job row) :
    Leaves call job row := by
  cases change with
  | @observe _ observed =>
    have howner : Store.SameOwner job (store.observeJob job observed).2 :=
      Store.sameOwner_observeJob _ _
    exact ⟨⟨howner.id, howner.service, howner.revision.ge⟩, howner.downloadID,
      fun _ => howner.queueID, fun hother => absurd rfl (hother _), nofun⟩
  | setPlan | finishPlanning =>
    exact ⟨⟨rfl, rfl, le_rfl⟩, rfl, fun _ => rfl, fun _ => ⟨rfl, rfl, rfl, rfl⟩, nofun⟩
  | reconsider | delete =>
    exact ⟨⟨rfl, rfl, Nat.le_succ _⟩, rfl, fun _ => rfl, fun _ => ⟨rfl, rfl, rfl, rfl⟩, fun _ => rfl⟩
  | follow =>
    unfold Store.followJob
    split <;> exact ⟨⟨rfl, rfl, le_rfl⟩, rfl, fun hother => absurd rfl (hother _ _ _),
      fun _ => ⟨rfl, rfl, rfl, rfl⟩, fun _ => rfl⟩
  | drop =>
    unfold Store.dropJob
    split <;> exact ⟨⟨rfl, rfl, le_rfl⟩, rfl, fun _ => rfl, fun _ => ⟨rfl, rfl, rfl, rfl⟩, fun _ => rfl⟩
  | finishRemoval =>
    unfold Store.removalFinished
    split <;> exact ⟨⟨rfl, rfl, le_rfl⟩, rfl, fun _ => rfl, fun _ => ⟨rfl, rfl, rfl, rfl⟩, fun _ => rfl⟩
  | start | updateAttempt | startRemoval =>
    exact ⟨⟨rfl, rfl, le_rfl⟩, rfl, fun _ => rfl, fun _ => ⟨rfl, rfl, rfl, rfl⟩, fun _ => rfl⟩

namespace Store

/-! ## Inverting the others -/

variable {store store' : Store} {observed job row : Job} {guidance : String} {at_ : Time}
  {id : JobID} {attempt : Attempt} {call : Call}

/-- The row that `Observe` creates, as it is stored. -/
def Creates (store : Store) (observed row : Job) : Prop :=
  ∃ evidence plan, observed.evidence.column = .ok evidence ∧ observed.plan.column = .ok plan ∧
    row = { store.createdJob observed with evidence, plan }

theorem observe_ok {answer : Job} (hcall : store.observe observed = .ok (store', answer)) :
    (store.firstByIdentity observed = none ∧ ∃ row, store.Creates observed row ∧
      store' = { store with jobs := store.jobs.save row }) ∨
    ∃ job evidence, store.firstByIdentity observed = some job ∧
      (store.observeJob job observed).2.evidence.column = .ok evidence ∧
      store' = { (store.observeJob job observed).1 with
        jobs := store.jobs.save ((store.observeJob job observed).2.withEvidence evidence) } := by
  unfold observe at hcall
  split at hcall
  · rename_i hnone
    simp only [bind_eq_ok] at hcall
    obtain ⟨evidence, hevidence, plan, hplan, _, hsave, ⟨⟩⟩ := hcall
    exact .inl ⟨hnone, _, ⟨evidence, plan, hevidence, hplan, rfl⟩, eq_of_saveJob hsave⟩
  · rename_i job hfound
    simp only [bind_eq_ok] at hcall
    obtain ⟨evidence, hevidence, saved, hsave, heq⟩ := hcall
    have hstore : saved = store' := congrArg Prod.fst (Except.ok.inj heq)
    refine .inr ⟨job, evidence, hfound, hevidence, ?_⟩
    rw [← hstore, eq_of_saveJob hsave, (store.sameTables_observeJob job observed).1]

theorem setPlan_ok {fingerprint : String} {plan : RawMessage}
    (hcall : store.setPlan id fingerprint plan guidance at_ = .ok store') :
    ∃ job stored, plan.column = .ok stored ∧ store.jobs.find id = some job ∧
      job.sourceFingerprint = fingerprint ∧
      job.state.active = false ∧ job.state ≠ .imported ∧ job.state ≠ .removed ∧
      store' = { store.rememberPlanning (readiedJob job stored guidance at_) with
        jobs := store.jobs.save (readiedJob job stored guidance at_) } := by
  simp only [setPlan, bind_eq_ok, first_eq_ok, ite_error_eq_ok] at hcall
  obtain ⟨job, hfind, hguard, stored, hstored, hsave⟩ := hcall
  push Not at hguard
  refine ⟨job, stored, hstored, hfind, hguard.1, by simpa using hguard.2.1, hguard.2.2.1,
    hguard.2.2.2, ?_⟩
  rw [eq_of_saveJob hsave, (store.sameTables_rememberPlanning _).1]

theorem finishPlanning_ok {planned : Job} (hcall : store.finishPlanning planned = .ok store') :
    ∃ job plan, planned.plan.column = .ok plan ∧ store.jobs.find planned.id = some job ∧
      job.revision = planned.revision ∧
      job.sourceFingerprint = planned.sourceFingerprint ∧ job.state.active = false ∧
      job.state ≠ .imported ∧ job.state ≠ .removed ∧
      store' = { store.rememberPlanning (plannedJob job { planned with plan }) with
        jobs := store.jobs.save (plannedJob job { planned with plan }) } := by
  simp only [finishPlanning, bind_eq_ok, first_eq_ok, ite_error_eq_ok] at hcall
  obtain ⟨job, hfind, hguard, plan, hplan, hsave⟩ := hcall
  push Not at hguard
  refine ⟨job, plan, hplan, hfind, hguard.1, hguard.2.1, by simpa using hguard.2.2.1,
    hguard.2.2.2.2, hguard.2.2.2.1, ?_⟩
  rw [eq_of_saveJob hsave, (store.sameTables_rememberPlanning _).1]

theorem updateAttempt_ok (hcall : store.updateAttempt attempt = .ok store') :
    ∃ previous job row, store.attempts.find attempt.key = some previous ∧
      previous.state.active = true ∧ attempt.row = .ok row ∧
      store.jobs.find attempt.jobID = some job ∧
      store' = { store with
        jobs := store.jobs.save (attemptedJob job attempt)
        attempts := store.attempts.save (overwriteAttempt previous row) } := by
  unfold updateAttempt at hcall
  split at hcall
  · cases hcall
  rename_i previous hfound
  simp only [bind_eq_ok, first_eq_ok, ite_error_eq_ok] at hcall
  obtain ⟨hactive, row, hrow, job, hfind, hsave⟩ := hcall
  exact ⟨previous, job, row, hfound, by simpa using hactive, hrow, hfind, eq_of_saveJob hsave⟩

/-! ## The tables after a call -/

/-- The row of a job is the row before the call, a row the call created, or a row the
call changed. -/
def RowAfter (store : Store) (call : Call) (store' : Store) (id : JobID) : Prop :=
  store'.jobs.find id = store.jobs.find id ∨
  (∃ observed row, call = .observe observed ∧ store.firstByIdentity observed = none ∧
    id = store.nextID ∧ store'.jobs.find id = some row ∧ store.Creates observed row) ∨
  ∃ job row, store.jobs.find id = some job ∧ store'.jobs.find id = some row ∧
    Change store call job row

/-- Attempts are written by `Start` and `UpdateAttempt` only. -/
def AttemptsAfter (store : Store) (call : Call) (store' : Store) : Prop :=
  (call.writesAttempts = false ∧ store'.attempts = store.attempts) ∨
  (∃ job at_, call = .start job.id at_ ∧ store.jobs.find job.id = some job ∧
    job.state = .ready ∧ job.pendingAction = .none ∧
    store'.jobs.find job.id = some (startedJob job at_) ∧
    store'.attempts =
      store.attempts.save (Attempt.create job (store.lastNumber job.id + 1) at_)) ∨
  ∃ attempt previous job row, call = .updateAttempt attempt ∧
    store.attempts.find attempt.key = some previous ∧ previous.state.active = true ∧
    attempt.row = .ok row ∧ store.jobs.find attempt.jobID = some job ∧
    store'.jobs.find attempt.jobID = some (attemptedJob job attempt) ∧
    store'.attempts = store.attempts.save (overwriteAttempt previous row)

structure After (store : Store) (call : Call) (store' : Store) : Prop where
  row (id : JobID) : RowAfter store call store' id
  attempts : AttemptsAfter store call store'
  results : call.writesPlan = false → store'.planningResults = store.planningResults

private theorem rowAfter_save (hfind : store.jobs.find job.id = some job)
    (hchange : Change store call job row) (hstore : store'.jobs = store.jobs.save row)
    (id : JobID) : RowAfter store call store' id := by
  rw [RowAfter, hstore]
  by_cases hsame : id = row.id
  · subst hsame
    refine .inr (.inr ⟨job, row, ?_, Table.find_save_self _ _, hchange⟩)
    rw [hchange.leaves.id, hfind]
  · exact .inl (Table.find_save_of_ne _ hsame)

/-- A call that writes one row, and nothing else. -/
private theorem after_save (hfind : store.jobs.find job.id = some job)
    (hchange : Change store call job row) (hquiet : call.writesAttempts = false) :
    After store call { store with jobs := store.jobs.save row } :=
  ⟨rowAfter_save hfind hchange rfl, .inl ⟨hquiet, rfl⟩, fun _ => rfl⟩

/-- A call that writes one row, and what was planned for it. -/
private theorem after_remember (hfind : store.jobs.find job.id = some job)
    (hchange : Change store call job row) (hquiet : call.writesAttempts = false)
    (hplan : call.writesPlan = true) :
    After store call { store.rememberPlanning row with jobs := store.jobs.save row } :=
  ⟨rowAfter_save hfind hchange rfl, .inl ⟨hquiet, (store.sameTables_rememberPlanning row).2⟩,
    fun hother => absurd (hplan.symm.trans hother) nofun⟩

theorem after_of_apply (hcall : store.apply call = .ok store') : After store call store' := by
  cases call with
  | observe observed =>
    obtain ⟨⟨saved, answer⟩, hobserve, rfl⟩ := map_eq_ok.mp hcall
    rcases observe_ok hobserve with ⟨hnone, row, hcreates, rfl⟩ | ⟨job, evidence, hfound, hstored, rfl⟩
    -- no row of that identity: a job is created under the next id
    · refine ⟨fun id => ?_, .inl ⟨rfl, rfl⟩, nofun⟩
      have hkey : row.id = store.nextID := by
        obtain ⟨evidence, plan, -, -, rfl⟩ := hcreates
        rfl
      by_cases hid : id = row.id
      · subst hid
        exact .inr (.inl ⟨observed, row, rfl, hnone, hkey, Table.find_save_self _ _, hcreates⟩)
      · exact .inl (Table.find_save_of_ne _ hid)
    -- the row of the identity is updated
    · exact ⟨rowAfter_save (find_of_firstByIdentity hfound) (.observe hfound hstored) rfl,
        .inl ⟨rfl, (store.sameTables_observeJob _ _).2⟩, nofun⟩
  | setPlan planID fingerprint plan guidance at_ =>
    obtain ⟨job, stored, hstored, hfind, rfl, hidle, himported, hremoved, rfl⟩ := setPlan_ok hcall
    obtain rfl := Table.key_of_find hfind
    exact after_remember hfind (.setPlan hstored rfl rfl hidle himported hremoved) rfl rfl
  | requestAction jobID action guidance tolerance at_ =>
    obtain ⟨job, hfind, hidle, hremoved, haction, rfl⟩ := requestAction_ok hcall
    obtain rfl := Table.key_of_find hfind
    -- the two actions a user can ask for
    rcases haction with ⟨rfl, himported⟩ | rfl
    · exact after_save hfind (.reconsider .page hidle himported hremoved) rfl
    · exact after_save hfind (.delete rfl hidle hremoved) rfl
  | requestReconsideration expected guidance tolerance at_ =>
    obtain ⟨job, hfind, hidle, hremoved, haction, rfl⟩ := requestAction_ok hcall
    have hid : job.id = expected.id := Table.key_of_find hfind
    rcases haction with ⟨-, himported⟩ | hdelete
    · exact after_save (hid ▸ hfind) (.reconsider (.inbox hid.symm) hidle himported hremoved) rfl
    · cases hdelete
  | finishPlanning planned =>
    obtain ⟨job, plan, hplan, hfind, hrevision, hsource, hidle, himported, hremoved, rfl⟩ :=
      finishPlanning_ok hcall
    have hid : job.id = planned.id := Table.key_of_find hfind
    exact after_remember (hid ▸ hfind)
      (.finishPlanning hplan hid.symm hrevision hsource hidle himported hremoved) rfl rfl
  | start jobID at_ =>
    obtain ⟨⟨saved, attempt⟩, hstart, rfl⟩ := map_eq_ok.mp hcall
    obtain ⟨job, hfind, hready, hunasked, rfl, rfl⟩ := start_ok hstart
    obtain rfl := Table.key_of_find hfind
    exact ⟨rowAfter_save hfind (.start rfl hready hunasked) rfl,
      .inr (.inl ⟨job, at_, rfl, hfind, hready, hunasked, Table.find_save_self _ _, rfl⟩),
      fun _ => rfl⟩
  | updateAttempt attempt =>
    obtain ⟨previous, job, row, hfound, hactive, hrow, hfind, rfl⟩ := updateAttempt_ok hcall
    have hid : job.id = attempt.jobID := Table.key_of_find hfind
    refine ⟨rowAfter_save (hid ▸ hfind) (.updateAttempt hid.symm hfound hactive) rfl,
      .inr (.inr ⟨attempt, previous, job, row, rfl, hfound, hactive, hrow, hfind, ?_, rfl⟩),
      fun _ => rfl⟩
    rw [← hid]
    exact Table.find_save_self _ (attemptedJob job attempt)
  | startRemoval jobID at_ =>
    obtain ⟨⟨saved, requested⟩, hremoval, rfl⟩ := map_eq_ok.mp hcall
    obtain ⟨job, hfind, hasked, hrunning, himporting, -, rfl⟩ := startRemoval_ok hremoval
    obtain rfl := Table.key_of_find hfind
    exact after_save hfind (.startRemoval rfl hasked hrunning himporting) rfl
  | finishRemoval requested failure at_ =>
    obtain ⟨job, hfind, hrevision, hasked, rfl⟩ := finishRemoval_ok hcall
    have hid : job.id = requested.id := Table.key_of_find hfind
    exact after_save (hid ▸ hfind) (.finishRemoval hid.symm hrevision hasked) rfl
  | reconcileQueue service present at_ =>
    -- the one call that writes more than one row: each is followed or dropped
    obtain ⟨hattempts, hresults, hrows⟩ := reconcileJobs_ok hcall
    refine ⟨fun id => ?_, .inl ⟨rfl, hattempts⟩, fun _ => hresults⟩
    rcases hrows id with hsame | ⟨job, hmem, position, row, rfl, hround, hrow⟩
    · exact .inl hsame
    · obtain ⟨hfind, rfl⟩ := mem_list_iff.mp hmem
      refine .inr (.inr ⟨job, row, hfind, hrow, ?_⟩)
      rcases reconcileJob_ok hround with ⟨matched, hmatched, rfl⟩ | ⟨hgone, hqueued, rfl⟩
      · exact .follow rfl hmatched
      · exact .drop rfl hgone hqueued

/-- Jobs are never deleted: a row stays, unchanged or changed by the call. -/
theorem exists_row_of_apply (hcall : store.apply call = .ok store')
    (hfind : store.jobs.find id = some job) :
    ∃ row, store'.jobs.find id = some row ∧ (row = job ∨ Change store call job row) := by
  rcases (after_of_apply hcall).row id with hsame | ⟨observed, row, -, -, rfl, -⟩ |
    ⟨job', row, hjob, hrow, h⟩
  · exact ⟨job, hsame.trans hfind, .inl rfl⟩
  · rw [find_nextID] at hfind
    cases hfind
  · rw [hfind] at hjob
    cases hjob
    exact ⟨row, hrow, .inr h⟩

/-- Where a row comes from: it was there, the call created it, or the call
changed it. -/
theorem row_of_apply (hcall : store.apply call = .ok store')
    (hfind : store'.jobs.find id = some row) :
    store.jobs.find id = some row ∨
    (∃ observed, call = .observe observed ∧ store.firstByIdentity observed = none ∧
      id = store.nextID ∧ store.Creates observed row) ∨
    ∃ job, store.jobs.find id = some job ∧ Change store call job row := by
  rcases (after_of_apply hcall).row id with hsame |
    ⟨observed, row', rfl, hnone, rfl, hrow, hcreates⟩ | ⟨job, row', hjob, hrow, hchange⟩
  · exact .inl (hsame ▸ hfind)
  · rw [hfind] at hrow
    cases hrow
    exact .inr (.inl ⟨observed, rfl, hnone, rfl, hcreates⟩)
  · rw [hfind] at hrow
    cases hrow
    exact .inr (.inr ⟨job, hjob, hchange⟩)

theorem attempts_of_quiet (hquiet : call.writesAttempts = false)
    (hcall : store.apply call = .ok store') : store'.attempts = store.attempts := by
  rcases (after_of_apply hcall).attempts with ⟨-, hattempts⟩ | ⟨job, at_, rfl, -⟩ |
    ⟨attempt, previous, job, row, rfl, -⟩
  · exact hattempts
  · cases hquiet
  · cases hquiet

/-- What is stored of messages is what they were marshalled to. -/
structure Marshalled (store : Store) : Prop where
  evidence : ∀ id job, store.jobs.find id = some job → job.evidence.column = .ok job.evidence
  attempt : ∀ key attempt, store.attempts.find key = some attempt → attempt.row = .ok attempt

theorem marshalled_empty : Store.empty.Marshalled :=
  ⟨fun _ _ hfind => (by cases hfind), fun _ _ hfind => by cases hfind⟩

theorem Marshalled.apply (law : store.Marshalled) (hcall : store.apply call = .ok store') :
    store'.Marshalled := by
  refine ⟨fun id row hrow => ?_, fun key attempt hfind => ?_⟩
  · rcases row_of_apply hcall hrow with hsame | ⟨observed, -, -, -, _, _, hevidence, -, rfl⟩ |
      ⟨job, hjob, hchange⟩
    · exact law.evidence id row hsame
    · exact RawMessage.column_column hevidence
    · by_cases hobserve : ∃ observed, call = .observe observed
      · obtain ⟨observed, rfl⟩ := hobserve
        cases hchange with
        | observe found stored => exact RawMessage.column_column stored
        | reconsider asks => cases asks
      · rw [(hchange.leaves.sameInput fun observed h => hobserve ⟨observed, h⟩).evidence]
        exact law.evidence id job hjob
  have hsaved {saved : Attempt} (hattempts : store'.attempts = store.attempts.save saved)
      (hrow : saved.row = .ok saved) : attempt.row = .ok attempt := by
    rw [hattempts, Table.find_save] at hfind
    split_ifs at hfind
    · cases hfind
      exact hrow
    · exact law.attempt key attempt hfind
  rcases (after_of_apply hcall).attempts with ⟨-, hattempts⟩ |
    ⟨job, at_, -, -, -, -, -, hattempts⟩ |
    ⟨written, previous, job, row, -, -, -, hrow, -, -, hattempts⟩
  · exact law.attempt key attempt (hattempts ▸ hfind)
  · exact hsaved hattempts (Attempt.row_create job _ at_)
  · obtain ⟨importRequest, importReceipt, hrequest, hreceipt, rfl⟩ := Attempt.row_eq_ok.mp hrow
    exact hsaved hattempts (Attempt.row_eq_ok.mpr ⟨_, _, RawMessage.column_column hrequest,
      RawMessage.column_column hreceipt, rfl⟩)

end Store

end NixConfig.MediaRepair.Jobs
