/-
# An import ends the repair of a job

Once an attempt of a job is imported there must be no further attempt. `Start`
does not look at earlier attempts: what stands in its way is the state of the
job. The transactions that lead back to planning refuse a job in `Imported`,
and those that remove it take it to `Removing` and `Removed`, which lead
nowhere either, except in two places. A removal that fails leaves the job
`Blocked`, and so does a queue entry that comes back after a removal; from
there an operator's request to reconsider goes all the way to a second import.

The law below holds in every run that avoids these two, and two runs show that
neither can be left out.
-/

import NixConfig.MediaRepair.Repair.Ownership

namespace NixConfig.MediaRepair.Repair

open Data Semantics Jobs

/-- Some attempt of the job is imported. -/
def Imported (store : Store) (id : JobID) : Prop :=
  ∃ attempt ∈ store.attemptsOf id, attempt.state = .imported
  deriving Decidable

/-- The queue has an entry for the key. -/
def matches_ (key : QueueKey) (present : List QueueKey) : Bool :=
  match matchQueue key present with
  | .ok (some _) => true
  | _ => false

/-- A call that takes a job with an imported attempt back to `Blocked`: the
failed end of a removal, and a queue entry that is present again. -/
def Forgets (store : Store) : Call → Prop
  | .finishRemoval requested (some _) _ => Imported store requested.id
  | .reconcileQueue service present _ => ∃ job ∈ store.list service, job.state = .removed ∧
      Imported store job.id ∧ matches_ job.queueKey present = true
  | _ => False

instance (store : Store) (call : Call) : Decidable (Forgets store call) :=
  match call with
  | .finishRemoval requested (some _) _ => inferInstanceAs (Decidable (Imported store requested.id))
  | .reconcileQueue service present _ => inferInstanceAs (Decidable (∃ job ∈ store.list service,
      job.state = .removed ∧ Imported store job.id ∧ matches_ job.queueKey present = true))
  | .finishRemoval _ none _ | .observe .. | .setPlan .. | .requestAction ..
  | .requestReconsideration .. | .finishPlanning .. | .start .. | .updateAttempt ..
  | .startRemoval .. => isFalse id

/-- The states from which no transaction but those two leads to `Ready`. -/
def settled : State → Bool
  | .imported | .removing | .removed => true
  | _ => false

theorem settled_iff {state : State} :
    settled state = true ↔ state = .imported ∨ state = .removing ∨ state = .removed := by
  cases state <;> simp [settled]

/-! ## One call -/

variable {store store' : Store} {call : Call}

theorem imported_iff {id : JobID} : Imported store id ↔
    ∃ k attempt, store.attempts.find (id, k) = some attempt ∧ attempt.state = .imported := by
  constructor
  · rintro ⟨attempt, hmem, hstate⟩
    exact ⟨attempt.number, attempt, Store.mem_attemptsOf.mp hmem, hstate⟩
  · rintro ⟨k, attempt, hfind, hstate⟩
    obtain rfl := Store.number_of_find hfind
    exact ⟨attempt, Store.mem_attemptsOf.mpr hfind, hstate⟩

/-- Every job with an imported attempt is in a settled state. -/
def Settled (store : Store) : Prop :=
  ∀ id job, store.jobs.find id = some job → Imported store id → settled job.state = true

section Runs

variable [JSONSerializer]

theorem settled_of_change {job row : Job} (change : Change store call job row)
    (law : store.Agreement) (hjob : store.jobs.find job.id = some job)
    (himported : Imported store job.id) (hkept : ¬ Forgets store call)
    (hsettled : settled job.state = true) : settled row.state = true := by
  -- The calls that ask for an idle job refuse a settled one.
  have hopen {P : Prop} (hidle : job.state.active = false) (hnotImported : job.state ≠ .imported)
      (hnotRemoved : job.state ≠ .removed) : P := by
    rcases settled_iff.mp hsettled with hstate | hstate | hstate
    · exact absurd hstate hnotImported
    · rw [hstate] at hidle
      cases hidle
    · exact absurd hstate hnotRemoved
  cases change with
  | observe found =>
    rcases Store.state_observeJob store job _ with hsame | ⟨hidle, hnotImported, hnotRemoved, -⟩
    · rw [hsame]
      exact hsettled
    · exact hopen hidle hnotImported hnotRemoved
  | setPlan _ _ _ hidle hnotImported hnotRemoved => exact hopen hidle hnotImported hnotRemoved
  | reconsider _ hidle hnotImported hnotRemoved => exact hopen hidle hnotImported hnotRemoved
  | delete => exact hsettled
  | finishPlanning _ _ _ _ hidle hnotImported hnotRemoved =>
    exact hopen hidle hnotImported hnotRemoved
  | start _ hready =>
    rw [hready] at hsettled
    cases hsettled
  | updateAttempt same found hprevious =>
    -- only attempts of working jobs are active, and a working job is not settled
    have hworking := law.working hjob same found hprevious
    rcases settled_iff.mp hsettled with hstate | hstate | hstate <;> rw [hstate] at hworking <;>
      cases hworking
  | startRemoval => rfl
  | @finishRemoval _ requested failure _ same =>
    cases failure with
    | none => rfl
    | some text =>
      -- a removal that failed blocks the imported job again, which the condition excludes
      rw [← same] at himported
      exact absurd himported hkept
  | @follow _ _ present _ matched same found =>
    obtain ⟨-, hsame | ⟨hremoved, -⟩⟩ := Store.state_followJob job (present.getD matched job.queueKey)
    · rw [hsame]
      exact hsettled
    -- and so does a queue entry that returns
    · refine absurd ⟨job, ?_, hremoved, himported, ?_⟩ hkept
      · rw [Store.list, List.mem_filter, Table.mem_rows_iff]
        exact ⟨hjob, by simp [same]⟩
      · simp only [matches_, found]
  | @drop _ _ _ at_ =>
    rcases Store.state_dropJob job at_ with ⟨-, hsame⟩ | ⟨-, -, hremoved⟩
    · rw [hsame]
      exact hsettled
    · rw [hremoved]
      rfl

/-- An imported attempt stays: numbers are not given twice, and an attempt that
ended is not written. -/
theorem Imported.apply {id : JobID} (himported : Imported store id) (law : store.Agreement)
    (hcall : store.apply call = .ok store') : Imported store' id := by
  rw [imported_iff] at himported ⊢
  obtain ⟨k, attempt, hfind, hstate⟩ := himported
  refine ⟨k, attempt, ?_, hstate⟩
  rcases (Store.after_of_apply hcall).attempts with ⟨-, hattempts⟩ |
    ⟨job, at_, rfl, hjob, -, -, -, hattempts⟩ |
    ⟨written, previous, job, row, rfl, hfound, hactive, -, -, -, hattempts⟩
  · rw [hattempts]
    exact hfind
  · rw [hattempts, Table.find_save_of_ne, hfind]
    intro hkey
    have hnew := find_lastNumber_succ law hjob
    rw [hkey] at hfind
    cases hfind.symm.trans hnew
  · rw [hattempts, Table.find_save_of_ne, hfind]
    intro hkey
    have hprevious : previous.key = written.key := Table.key_of_find hfound
    rw [← hprevious, show previous.key = (id, k) from hkey.symm, hfind] at hfound
    cases hfound
    rw [hstate] at hactive
    cases hactive

/-- Where an imported attempt comes from: it was there, or the call stores it. -/
theorem imported_of_apply {id : JobID} (hcall : store.apply call = .ok store')
    (himported : Imported store' id) :
    Imported store id ∨
      ∃ job attempt, attempt.state = .imported ∧
        store'.jobs.find id = some (Store.attemptedJob job attempt) := by
  rw [imported_iff] at himported ⊢
  obtain ⟨k, attempt, hfind, hstate⟩ := himported
  rcases (Store.after_of_apply hcall).attempts with ⟨-, hattempts⟩ |
    ⟨job, at_, rfl, hjob, -, -, -, hattempts⟩ |
    ⟨written, previous, job, stored, rfl, hfound, -, hstored, -, hrow, hattempts⟩
  · rw [hattempts] at hfind
    exact .inl ⟨k, attempt, hfind, hstate⟩
  · rw [hattempts, Table.find_save] at hfind
    split at hfind
    · cases hfind
      cases hstate
    · exact .inl ⟨k, attempt, hfind, hstate⟩
  · rw [hattempts, Table.find_save] at hfind
    split_ifs at hfind with hkey
    · cases hfind
      have hprevious : previous.key = written.key := Table.key_of_find hfound
      obtain rfl : id = written.jobID := congrArg Prod.fst (hkey.trans hprevious)
      exact .inr ⟨job, written, (Attempt.state_row hstored).symm.trans hstate, hrow⟩
    · exact .inl ⟨k, attempt, hfind, hstate⟩

theorem Settled.step (law : store.Agreement) (hlaw : Settled store)
    (hcall : store.apply call = .ok store') (hkept : ¬ Forgets store call) : Settled store' := by
  intro id row hrow himported
  rcases imported_of_apply hcall himported with hbefore | ⟨job, attempt, hstate, hwritten⟩
  · obtain ⟨k, attempt, hfind, -⟩ := imported_iff.mp hbefore
    obtain ⟨job, hjob⟩ := Option.isSome_iff_exists.mp (law.owned id k (by rw [hfind]; rfl))
    obtain ⟨row', hrow', hchange⟩ := Store.exists_row_of_apply hcall hjob
    rw [hrow] at hrow'
    cases hrow'
    obtain rfl := Table.key_of_find hjob
    rcases hchange with rfl | hchange
    · exact hlaw _ row hjob hbefore
    · exact settled_of_change hchange law hjob hbefore hkept (hlaw _ job hjob hbefore)
  · rw [hrow] at hwritten
    cases hwritten
    change settled attempt.state = true
    rw [hstate]
    rfl

/-! ## Every run -/

namespace System

variable {system : System} {past : List (System × SystemEvent)}

/-- An event that takes a job with an imported attempt back to `Blocked`. -/
def Forgetful (system : System) (event : SystemEvent) : Prop :=
  ∃ call ∈ system.call event, Forgets system.store call

instance (system : System) (event : SystemEvent) : Decidable (system.Forgetful event) := by
  unfold Forgetful
  infer_instance

theorem settled_of_reaches (hrun : Reaches Step init past system)
    (hkept : ∀ entry ∈ past, ¬ Forgetful entry.1 entry.2) : Settled system.store := by
  refine Reaches.invariant_of_admitted (fun system event => ¬ Forgetful system event)
    (fun _ system => Settled system.store) hrun hkept (fun _ _ hfind => by cases hfind) ?_
  intro past system event system' hrun hlaw hkept hstep
  have sound := sound_of_reaches hrun
  rcases (cases_of_step hstep).step (orderly_of_reaches hrun) sound with
    hsame | ⟨call, hcall, hmade⟩
  · rw [hsame]
    exact hlaw
  refine hlaw.step sound.agreement hcall.2 fun hforgets => ?_
  rcases hmade with hwrites | hmade
  · -- the calls that write attempts forget nothing
    cases call with
    | start | updateAttempt => exact hforgets
    | _ => cases hwrites
  · exact hkept ⟨call, hmade, hforgets⟩

theorem imported_of_reaches {found : System} {event : SystemEvent} {id : JobID}
    (hrun : Reaches Step init past system) (hmem : (found, event) ∈ past)
    (himported : Imported found.store id) : Imported system.store id := by
  refine Reaches.invariant (fun past system => (found, event) ∈ past → Imported system.store id)
    hrun (fun hmem => by cases hmem) ?_ hmem
  intro past system latest system' hrun hlaw hstep hmem
  have hbefore : Imported system.store id := by
    rcases List.mem_cons.mp hmem with heq | hmem
    · cases heq
      exact himported
    · exact hlaw hmem
  have sound := sound_of_reaches hrun
  rcases (cases_of_step hstep).step (orderly_of_reaches hrun) sound with hsame | ⟨call, hcall, -⟩
  · rw [hsame]
    exact hbefore
  · exact hbefore.apply sound.agreement hcall.2

/-- In every run in which no removal of a job with an imported attempt ends with
a failure, and no queue entry of such a job comes back after its removal: once
an attempt of a job is imported, `Start` fails for the job. -/
theorem imported_job_never_starts (hrun : Reaches Step init past system)
    (hkept : ∀ entry ∈ past, ¬ Forgetful entry.1 entry.2) {found : System} {event : SystemEvent}
    (hmem : (found, event) ∈ past) {id : JobID} (himported : Imported found.store id) (at_ : Time) :
    ∀ store attempt, system.store.start id at_ ≠ .ok (store, attempt) := by
  intro store attempt hstart
  obtain ⟨job, hjob, hready, -⟩ := Store.start_ok hstart
  have hsettled := settled_of_reaches hrun hkept id job hjob (imported_of_reaches hrun hmem himported)
  rw [hready] at hsettled
  cases hsettled

end System

end Runs

/-! ## Two runs with a second attempt -/

namespace System

attribute [local instance] compactSerializer

/-- The work goroutine plans the job and starts to run it. -/
def planEvents (now : Time) : List SystemEvent :=
  [.work .radarr (.advance false), .work .radarr (.turn now true),
    .work .radarr (.planned (.ok ⟨ascii "2", true, ""⟩) now), .work .radarr (.commit now true),
    .work .radarr .stop,
    .work .radarr (.advance false), .work .radarr (.turn now true), .work .radarr (.run .got),
    .work .radarr (.run (.commit now true))]

/-- The job is repaired and imported. -/
def importedEvents : List SystemEvent :=
  observeEvents 1 ++ planEvents 2 ++
    [.work .radarr (.run (.repaired (.ok ⟨"out", ascii "[7]", 3⟩) 3)),
      .work .radarr (.run (.commit 3 true)), .work .radarr (.run .submit),
      .work .radarr (.run (.submitted (.ok 9) 4)), .work .radarr (.run (.commit 4 true)),
      .work .radarr (.run (.checked (.ok ⟨ascii "[8]", ""⟩) 5 5 5)),
      .work .radarr (.run (.commit 5 true)), .work .radarr .stop]

theorem imported_job_never_starts_imported :
    ∃ past system found event, execute next [] init importedEvents = some (past, system) ∧
      (∀ entry ∈ past, ¬ Forgetful entry.1 entry.2) ∧ (found, event) ∈ past ∧
      Imported found.store 1 ∧
      ∀ store attempt, system.store.start 1 6 ≠ .ok (store, attempt) :=
  ⟨_, _, _, _, rfl, by decide, List.mem_cons_self, by decide,
    imported_job_never_starts
      (Reaches.execute (fun _ _ _ hnext => hnext) importedEvents .start rfl) (by decide)
      List.mem_cons_self (by decide) 6⟩

/-- An operator asks to delete the job, and `Remove` answers. -/
def removeEvents (failure : Option String) (now : Time) : List SystemEvent :=
  [.request (.requestAction 1 .delete "" 0 now), .action .radarr .list, .action .radarr (.turn now),
    .action .radarr (.commit now true), .action .radarr (.removed failure),
    .action .radarr (.commit now true), .action .radarr .stop]

/-- An operator asks to reconsider the job, and it is planned and run again. -/
def reconsiderEvents (now : Time) : List SystemEvent :=
  .request (.requestAction 1 .reconsider "" 0 now) :: planEvents now

/-- The removal of the imported job fails. -/
def failedRemovalEvents : List SystemEvent :=
  importedEvents ++ removeEvents (some "offline") 6 ++ reconsiderEvents 7

/-- The imported job is removed, and its queue entry is present again. -/
def presentAgainEvents : List SystemEvent :=
  importedEvents ++ removeEvents none 6 ++ observeEvents 7 ++ reconsiderEvents 8

/-- The events lead to a second attempt beside an imported one. -/
def StartsAgain (events : List SystemEvent) : Prop :=
  ∃ past system, Reaches Step init past system ∧ past.reverse.map Prod.snd = events ∧
    (system.store.attemptsOf 1).map (fun attempt => (attempt.number, attempt.state)) =
      [(1, .imported), (2, .running)]

theorem imported_job_started_again :
    StartsAgain failedRemovalEvents ∧ StartsAgain presentAgainEvents :=
  ⟨⟨_, _, Reaches.execute (fun _ _ _ hnext => hnext) failedRemovalEvents .start rfl, rfl, rfl⟩,
    ⟨_, _, Reaches.execute (fun _ _ _ hnext => hnext) presentAgainEvents .start rfl, rfl, rfl⟩⟩

end System

end NixConfig.MediaRepair.Repair
