/-
# Removal excludes repair

Removing a queue entry and repairing its files must not overlap, but nothing
locks the job: `StartRemoval` moves it to `Removing`, and every other
transaction looks at the state before it writes. `Removing` is a state none of
them leaves, except the end of the removal itself. That the end belongs to the
removal in progress, and not to another one, is a matter of who holds the job:
its service has one action goroutine, and no other service takes it up.
-/

import NixConfig.MediaRepair.Repair.Ownership

namespace NixConfig.MediaRepair.Repair

open Data Semantics Jobs

/-- A job that is being removed has no attempt under way and cannot start one. -/
theorem no_repair_of_removing {store : Store} {id : JobID} {job : Job} (law : store.Agreement)
    (hjob : store.jobs.find id = some job) (hremoving : job.state = .removing) :
    (∀ attempt ∈ store.attemptsOf id, attempt.state ≠ .running ∧ attempt.state ≠ .importing) ∧
      ∀ at_ store' attempt, store.start id at_ ≠ .ok (store', attempt) := by
  refine ⟨fun attempt hmem => ?_, fun at_ store' attempt hstart => ?_⟩
  · obtain ⟨n, agrees⟩ := law.agrees id job hjob
    obtain rfl := Table.key_of_find hjob
    have hrest (hworking : attempt.state.working = true) : False := by
      obtain ⟨-, -, hstate⟩ := agrees.latest _ attempt (Store.mem_attemptsOf.mp hmem)
        (State.active_of_working hworking)
      rw [← hstate, hremoving] at hworking
      cases hworking
    exact ⟨fun hstate => hrest (by rw [hstate]; rfl), fun hstate => hrest (by rw [hstate]; rfl)⟩
  · obtain ⟨started, hstarted, hready, -⟩ := Store.start_ok hstart
    rw [hjob] at hstarted
    cases hstarted
    cases hremoving.symm.trans hready

section Runs

variable [JSONSerializer]

/-! ## What a call does to a job that is being removed -/

variable {store : Store} {call : Call} {job row : Job}

/-- Only the end of a removal takes a job out of `Removing`; any other call
keeps its pending action and revision as well. -/
theorem change_of_removing (change : Change store call job row) (law : store.Agreement)
    (hjob : store.jobs.find job.id = some job) (hremoving : job.state = .removing) :
    (row.state = .removing ∧ row.revision = job.revision) ∨
    ∃ requested failure at_, call = .finishRemoval requested failure at_ ∧
      requested.id = job.id ∧ requested.revision = job.revision := by
  have hactive : job.state.active = true := by
    rw [hremoving]
    rfl
  -- a job in `Removing` is active, and most calls ask for an idle one
  have hbusy {P : Prop} (hidle : job.state.active = false) : P := by
    rw [hactive] at hidle
    cases hidle
  cases change with
  | observe found =>
    rcases Store.state_observeJob store job _ with hsame | ⟨hidle, -⟩
    · exact .inl ⟨hsame.trans hremoving, (Store.sameOwner_observeJob _ _).revision⟩
    · exact hbusy hidle
  | setPlan _ _ _ hidle => exact hbusy hidle
  | reconsider _ hidle => exact hbusy hidle
  | delete _ hidle => exact hbusy hidle
  | finishPlanning _ _ _ _ hidle => exact hbusy hidle
  | start _ hready => cases hremoving.symm.trans hready
  | updateAttempt same found hprevious =>
    have hworking := law.working hjob same found hprevious
    rw [hremoving] at hworking
    cases hworking
  | startRemoval => exact .inl ⟨rfl, rfl⟩
  | finishRemoval same revision => exact .inr ⟨_, _, _, rfl, same, revision.symm⟩
  | @follow _ _ present _ matched =>
    obtain ⟨-, hsame | ⟨hremoved, -⟩⟩ := Store.state_followJob job (present.getD matched job.queueKey)
    · refine .inl ⟨hsame.trans hremoving, ?_⟩
      unfold Store.followJob
      split <;> rfl
    · cases hremoving.symm.trans hremoved
  | @drop _ _ _ at_ =>
    rcases Store.state_dropJob job at_ with ⟨-, hsame⟩ | ⟨hidle, -⟩
    · refine .inl ⟨hsame.trans hremoving, ?_⟩
      unfold Store.dropJob
      split <;> rfl
    · exact hbusy hidle

/-- A job is moved to `Removing` on request only. -/
theorem pendingAction_of_change (change : Change store call job row) (hissued : call.Issued)
    (hasked : job.state = .removing → job.pendingAction = .delete)
    (hremoving : row.state = .removing) : row.pendingAction = .delete := by
  have hidle {state : State} (hidle : state.active = false) (h : state = .removing) :
      row.pendingAction = .delete := by
    rw [h] at hidle
    cases hidle
  cases change with
  | observe found =>
    rw [(Store.sameOwner_observeJob _ _).pendingAction]
    rcases Store.state_observeJob store job _ with hsame | ⟨-, -, -, hstate | hstate⟩
    · exact hasked (hsame.symm.trans hremoving)
    · cases hstate.symm.trans hremoving
    · cases hstate.symm.trans hremoving
  | setPlan | reconsider | start => cases hremoving
  | delete _ hrest => exact hidle hrest hremoving
  | @finishPlanning _ planned =>
    change planned.state = .removing at hremoving
    rcases hissued with hstate | hstate | hstate <;> cases hstate.symm.trans hremoving
  | @updateAttempt _ attempt =>
    change attempt.state = .removing at hremoving
    rcases hissued with hstate | hstate | hstate | hstate <;> cases hstate.symm.trans hremoving
  | startRemoval _ asked => exact asked
  | @finishRemoval _ _ failure at_ =>
    rcases Store.state_removalFinished job failure at_ with hstate | hstate <;>
      cases hstate.symm.trans hremoving
  | @follow _ _ present _ matched =>
    obtain ⟨hpending, hsame | ⟨-, hblocked⟩⟩ :=
      Store.state_followJob job (present.getD matched job.queueKey)
    · rw [hpending]
      exact hasked (hsame.symm.trans hremoving)
    · cases hblocked.symm.trans hremoving
  | @drop _ _ _ at_ =>
    rcases Store.state_dropJob job at_ with ⟨hpending, hsame⟩ | ⟨-, -, hremoved⟩
    · rw [hpending]
      exact hasked (hsame.symm.trans hremoving)
    · cases hremoved.symm.trans hremoving

/-- No job is in `Removing` unasked. -/
def Asked (store : Store) : Prop :=
  ∀ id job, store.jobs.find id = some job → job.state = .removing → job.pendingAction = .delete

theorem Asked.step {store' : Store} (asked : Asked store) (hstep : store.Step call store') :
    Asked store' := by
  intro id row hrow hremoving
  rcases Store.row_of_apply hstep.2 hrow with hsame |
    ⟨observed, -, -, -, _, _, -, -, rfl⟩ | ⟨job, hjob, change⟩
  · exact asked id row hsame hremoving
  · cases hremoving
  · exact pendingAction_of_change change hstep.1 (asked id job hjob) hremoving

namespace System

variable {system system' : System} {event : SystemEvent} {past : List (System × SystemEvent)}

/-! ## Removals in progress -/

variable {requested : Job} {service : Service}

/-- The end of a removal is committed by the action goroutine that stands
there. -/
theorem finishing_of_call {failure : Option String} {at_ : Time} (hstep : system.Step event system')
    (hcall : system.call event = some (.finishRemoval requested failure at_)) :
    ∃ service reported jobs, event = .action service (.commit at_ reported) ∧
      system.action service = .finishing requested failure jobs := by
  unfold call at hcall
  split at hcall
  · unfold Work.call at hcall
    split at hcall <;> cases hcall
  · unfold Removal.call at hcall
    split at hcall
    · cases hcall
    · rename_i hstanding
      cases hcall
      exact ⟨_, _, _, rfl, hstanding⟩
    · cases hcall
  · -- operators do not end removals
    cases hcall
    cases cases_of_step hstep with
    | request requests => cases requests
  · cases hcall

theorem asked_of_reaches (hrun : Reaches Step init past system) : Asked system.store :=
  store_invariant Asked hrun (fun _ _ hfind => by cases hfind) fun _ asked hcall => asked.step hcall

/-- The job of every removal in progress is in `Removing`, at the revision the
removal was requested at. -/
def Excluding (system : System) : Prop :=
  ∀ service requested, (system.action service).inProgress = some requested →
    ∃ job, system.store.jobs.find requested.id = some job ∧ job.state = .removing ∧
      job.revision = requested.revision

theorem mem_held_of_inProgress (hprogress : (system.action service).inProgress = some requested) :
    requested.id ∈ (system.action service).held := by
  generalize system.action service = action at hprogress
  cases action with
  | idle | listed | starting => cases hprogress
  | calling | finishing =>
    cases hprogress
    exact List.mem_cons_self

/-- A removal in progress survives what others do. -/
theorem Excluding.keep (excluding : system.Excluding) (orderly : system.Orderly)
    (sound : system.engine.Sound) (hstep : system.Step event system')
    (hprogress : (system.action service).inProgress = some requested)
    (hother : ∀ move, event ≠ .action service move) :
    ∃ job, system'.store.jobs.find requested.id = some job ∧ job.state = .removing ∧
      job.revision = requested.revision := by
  obtain ⟨job, hjob, hremoving, hrevision⟩ := excluding service requested hprogress
  rcases (cases_of_step hstep).step orderly sound with hsame | ⟨call, hcall, hmade⟩
  · rw [hsame]
    exact ⟨job, hjob, hremoving, hrevision⟩
  obtain ⟨row, hrow, rfl | hchange⟩ := Store.exists_row_of_apply hcall.2 hjob
  · exact ⟨row, hrow, hremoving, hrevision⟩
  have hid : job.id = requested.id := Table.key_of_find hjob
  rcases change_of_removing hchange sound.agreement (hid ▸ hjob) hremoving with
    ⟨hstate, hsame⟩ | ⟨finishing, failure, at_, rfl, hsame, -⟩
  · exact ⟨row, hrow, hstate, hsame.trans hrevision⟩
  · -- the end of a removal of this job would be by the goroutine of its own service
    have hmade := hmade.resolve_left (by simp [Call.writesAttempts])
    obtain ⟨finisher, reported, jobs, rfl, hstanding⟩ := finishing_of_call hstep hmade
    have hholder := orderly.action service _ (mem_held_of_inProgress hprogress)
    have hfinisher := orderly.action finisher finishing.id (by
      rw [hstanding]
      exact List.mem_cons_self)
    rw [hsame, hid] at hfinisher
    obtain rfl := hfinisher.unique hholder
    exact absurd rfl (hother _)

theorem excluding_of_reaches (hrun : Reaches Step init past system) : system.Excluding := by
  refine Reaches.invariant (fun _ system => system.Excluding) hrun
    (fun _ _ hprogress => by cases hprogress) ?_
  intro past system event system' hrun excluding hstep service requested hprogress
  have orderly := orderly_of_reaches hrun
  have sound := sound_of_reaches hrun
  -- an event of another component leaves the job of a removal in `Removing`
  have hkeep (hbefore : (system.action service).inProgress = some requested)
      (hother : ∀ move, event ≠ .action service move) :=
    excluding.keep orderly sound hstep hbefore hother
  cases cases_of_step hstep with
  | proceed | commit | run | request => exact hkeep hprogress fun _ heq => by cases heq
  | crash => cases hprogress
  | @action mover move store action removed =>
    change (Function.update system.action mover action service).inProgress = _ at hprogress
    by_cases heq : service = mover
    · subst heq
      rw [Function.update_self] at hprogress
      have hbefore := excluding service requested
      generalize system.action service = standing at removed hbefore
      cases removed with
      | list | skip | take | unstarted | finished | unfinished | leave | abandon =>
        cases hprogress
      | answered => exact hbefore hprogress
      | @started id jobs now reported _ started hcall =>
        -- the transaction that begins a removal moves the job
        cases reported with
        | false => cases hprogress
        | true =>
          cases hprogress
          obtain ⟨job, hjob, -, -, -, rfl, rfl⟩ := Store.startRemoval_ok hcall
          exact ⟨_, Table.find_save_self _ (Store.removingJob job now), rfl, rfl⟩
    · rw [Function.update_of_ne heq] at hprogress
      exact hkeep hprogress fun _ hevent => heq (by cases hevent; rfl)

/-- Wherever the system gets: while a removal is in progress its job has no
attempt running or importing and cannot start one; every job in `Removing` has
its deletion pending; and only the end of a removal at the job's revision takes
a job out of `Removing`. -/
theorem removal_excludes_repair (hrun : Reaches Step init past system) :
    (∀ service requested, (system.action service).inProgress = some requested →
      (∀ attempt ∈ system.store.attemptsOf requested.id,
        attempt.state ≠ .running ∧ attempt.state ≠ .importing) ∧
      ∀ at_ store attempt, system.store.start requested.id at_ ≠ .ok (store, attempt)) ∧
    (∀ id job, system.store.jobs.find id = some job → job.state = .removing →
      job.pendingAction = .delete) ∧
    ∀ event system' id job, system.Step event system' → system.store.jobs.find id = some job →
      job.state = .removing →
      (¬ ∃ row, system'.store.jobs.find id = some row ∧ row.state = .removing) →
      ∃ service now reported requested failure jobs,
        event = .action service (.commit now reported) ∧
        system.action service = .finishing requested failure jobs ∧
        requested.id = id ∧ requested.revision = job.revision := by
  have sound := sound_of_reaches hrun
  refine ⟨fun service requested hprogress => ?_, asked_of_reaches hrun, ?_⟩
  · obtain ⟨job, hjob, hremoving, -⟩ := excluding_of_reaches hrun service requested hprogress
    exact no_repair_of_removing sound.agreement hjob hremoving
  · intro event system' id job hstep hjob hremoving hleft
    rcases (cases_of_step hstep).step (orderly_of_reaches hrun) sound with
      hsame | ⟨call, hcall, hmade⟩
    · rw [hsame] at hleft
      exact absurd ⟨job, hjob, hremoving⟩ hleft
    obtain ⟨row, hrow, rfl | hchange⟩ := Store.exists_row_of_apply hcall.2 hjob
    · exact absurd ⟨row, hrow, hremoving⟩ hleft
    obtain rfl := Table.key_of_find hjob
    rcases change_of_removing hchange sound.agreement hjob hremoving with
      ⟨hstate, -⟩ | ⟨requested, failure, at_, rfl, hid, hrevision⟩
    · exact absurd ⟨row, hrow, hstate⟩ hleft
    · have hmade := hmade.resolve_left (by simp [Call.writesAttempts])
      obtain ⟨service, reported, jobs, hevent, hstanding⟩ := finishing_of_call hstep hmade
      exact ⟨service, at_, reported, requested, failure, jobs, hevent, hstanding, hid, hrevision⟩

end System

end Runs

namespace System

attribute [local instance] compactSerializer

/-- An operator asks to delete a job, and `Remove` is called. -/
def removingEvents : List SystemEvent :=
  observeEvents 1 ++ [.request (.requestAction 1 .delete "" 0 2),
    .action .radarr .list, .action .radarr (.turn 3), .action .radarr (.commit 3 true)]

theorem removal_excludes_repair_requested :
    ∃ past system requested, execute next [] init removingEvents = some (past, system) ∧
      (system.action .radarr).inProgress = some requested ∧ requested.id = 1 ∧
      (∀ attempt ∈ system.store.attemptsOf requested.id,
        attempt.state ≠ .running ∧ attempt.state ≠ .importing) ∧
      ∀ at_ store attempt, system.store.start requested.id at_ ≠ .ok (store, attempt) :=
  ⟨_, _, _, rfl, rfl, rfl, (removal_excludes_repair
    (Reaches.execute (fun _ _ _ hnext => hnext) removingEvents .start rfl)).1 .radarr _ rfl⟩

end System

end NixConfig.MediaRepair.Repair
