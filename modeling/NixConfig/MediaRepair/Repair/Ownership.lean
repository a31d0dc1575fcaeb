/-
# Goroutines keep to the jobs of their service

The goroutines of a service take up jobs of that service only, and a job stays
with its service. So at most one goroutine is in a run of a job, and the whole
system simulates the machine of the engine: what is proved about every run of
that machine holds wherever the system gets.
-/

import NixConfig.MediaRepair.Repair.Scheduler

namespace NixConfig.MediaRepair.Repair

open Data Semantics Jobs

/-! ## Goroutines hold jobs of their service -/

/-- The job is there and belongs to the service. -/
def Owned (store : Store) (service : Service) (id : JobID) : Prop :=
  ∃ job, store.jobs.find id = some job ∧ job.service = service

section Ownership

variable {store : Store} {service : Service} {id : JobID}

/-- A job has one owner. -/
theorem Owned.unique {service' : Service} (owned : Owned store service id)
    (owned' : Owned store service' id) : service = service' := by
  obtain ⟨job, hjob, rfl⟩ := owned
  obtain ⟨job', hjob', rfl⟩ := owned'
  rw [hjob] at hjob'
  cases hjob'
  rfl

theorem owned_of_mem_list {job : Job} (hmem : job ∈ store.list service) :
    Owned store service job.id :=
  ⟨job, Store.mem_list_iff.mp hmem⟩

end Ownership

namespace Removal

/-- The jobs the goroutine has in hand. -/
def held : Removal → List JobID
  | .idle => []
  | .listed jobs => jobs.map Job.id
  | .starting id jobs => id :: jobs.map Job.id
  | .calling requested jobs | .finishing requested _ jobs => requested.id :: jobs.map Job.id

end Removal

variable {service : Service} {store store' : Store} {action action' : Removal}

theorem Removed.held {move : RemovalMove}
    (hremoved : Removed service store action move store' action') {id : JobID}
    (hmem : id ∈ action'.held) : id ∈ action.held ∨ Owned store service id := by
  cases hremoved with
  | list =>
    obtain ⟨job, hjob, rfl⟩ := List.mem_map.mp hmem
    exact .inr (owned_of_mem_list hjob)
  | skip | unstarted | finished | unfinished => exact .inl (List.mem_cons_of_mem _ hmem)
  | take | answered => exact .inl hmem
  | @started started jobs now reported _ requested hcall =>
    cases reported with
    | false => cases hmem
    | true =>
      obtain ⟨job, hfind, -, -, -, rfl, -⟩ := Store.startRemoval_ok hcall
      obtain rfl := Table.key_of_find hfind
      exact .inl hmem
  | leave | abandon => cases hmem

theorem Removal.issued_of_call {now : Time} {call : Call} (hcall : action.call now = some call) :
    call.Issued ∧ call.writesAttempts = false := by
  unfold Removal.call at hcall
  split at hcall
  · cases hcall
    exact ⟨trivial, rfl⟩
  · cases hcall
    exact ⟨trivial, rfl⟩
  · cases hcall

theorem issued_of_operatorRequest {call : Call} (hrequest : operatorRequest call = true) :
    call.Issued ∧ call.writesAttempts = false := by
  cases call <;> first | exact ⟨trivial, rfl⟩ | cases hrequest

theorem state_of_plan {job : Job} {disabled ready : Bool} {now : Time}
    (hturn : advanceJob job disabled ready now = .plan) : job.state = .observed := by
  unfold advanceJob at hturn
  split_ifs at hturn with _ _ _ _ hguard
  exact hguard.1

section Runs

variable [JSONSerializer]

theorem Owned.apply {id : JobID} {call : Call} (owned : Owned store service id)
    (hcall : store.apply call = .ok store') : Owned store' service id := by
  obtain ⟨job, hjob, hservice⟩ := owned
  obtain ⟨row, hrow, rfl | hchange⟩ := Store.exists_row_of_apply hcall hjob
  · exact ⟨row, hrow, hservice⟩
  · exact ⟨row, hrow, hchange.leaves.service.trans hservice⟩

namespace Work

/-- The jobs the goroutine has in hand. -/
def held : Work → List JobID
  | .requesting listed | .advancing listed _ => listed.map Job.id
  | .planning job listed _ | .answering job listed _ => job.id :: listed.map Job.id
  | .running id _ listed _ => id :: listed.map Job.id
  | _ => []

/-- What the goroutine is about to store is what the store is promised. -/
def Promised : Work → Prop
  | .planning job _ _ => job.state = .observed
  | .answering planned _ _ => (Call.finishPlanning planned).Issued
  | _ => True

/-- The run the goroutine is in, seen from a job. -/
def frame (id : JobID) : Work → Option Frame
  | .running job frame _ _ => if job = id then some frame else none
  | _ => none

variable {service : Service} {store : Store} {work work' : Work} {move : WorkMove}

variable {id : JobID} {disabled reported : Bool} {now : Time}

theorem mem_held_of_frame {standing : Frame} (hframe : work.frame id = some standing) :
    id ∈ work.held := by
  unfold frame at hframe
  split at hframe
  · split at hframe
    · rename_i heq
      subst heq
      exact List.mem_cons_self
    · cases hframe
  · cases hframe

/-- What a move that writes nothing does: it only takes up jobs of the service, it
prepares only what the store is promised, and it leaves the run alone, begins one or gives
it up. -/
structure Proceeds (service : Service) (store : Store) (work work' : Work) : Prop where
  held : ∀ id ∈ work'.held, id ∈ work.held ∨ Owned store service id
  promised : work.Promised → work'.Promised
  frame : (∀ id, work'.frame id = work.frame id) ∨
    (∃ id listed disabled, id ∈ work.held ∧ (∀ other, work.frame other = none) ∧
      work' = .running id .get listed disabled) ∨
    ∃ id standing listed disabled, work = .running id standing listed disabled ∧ work' = .idle

theorem proceeds_of_proceed (hproceed : work.proceed service store move = some work') :
    Proceeds service store work work' := by
  have hlisted {jobs : List Job} (hsub : ∀ job ∈ jobs, job ∈ store.list service) :
      ∀ id ∈ jobs.map Job.id, id ∈ work.held ∨ Owned store service id := by
    intro id hmem
    obtain ⟨job, hjob, rfl⟩ := List.mem_map.mp hmem
    exact .inr (owned_of_mem_list (hsub job hjob))
  unfold proceed at hproceed
  split at hproceed
  · cases hproceed
    exact ⟨by simp [held], fun _ => trivial, .inl fun _ => rfl⟩
  · cases hproceed
    exact ⟨by simp [held], fun _ => trivial, .inl fun _ => rfl⟩
  · split at hproceed
    · cases hproceed
      exact ⟨by simp [held], fun _ => trivial, .inl fun _ => rfl⟩
    · cases hproceed
      exact ⟨hlisted fun _ hjob => (List.mem_filter.mp hjob).1, fun _ => trivial,
        .inl fun _ => rfl⟩
  · split at hproceed
    · cases hproceed
      exact ⟨fun _ => .inl ∘ List.mem_cons_of_mem _, fun _ => trivial, .inl fun _ => rfl⟩
    · cases hproceed
  · cases hproceed
    exact ⟨hlisted fun _ hjob => hjob, fun _ => trivial, .inl fun _ => rfl⟩
  · split at hproceed
    · cases hproceed
      exact ⟨fun _ => .inl ∘ List.mem_cons_of_mem _, fun _ => trivial, .inl fun _ => rfl⟩
    · rename_i hturn
      cases hproceed
      exact ⟨fun _ => .inl, fun _ => state_of_plan hturn, .inl fun _ => rfl⟩
    · cases hproceed
      exact ⟨fun _ => .inl, fun _ => trivial,
        .inr (.inl ⟨_, _, _, List.mem_cons_self, fun _ => rfl, rfl⟩)⟩
  · cases hproceed
    refine ⟨fun _ hmem => .inl ?_, fun promised => issued_planned promised _ _,
      .inl fun _ => rfl⟩
    simpa only [held, planned_id] using hmem
  · cases hproceed
    exact ⟨fun _ => .inl ∘ List.mem_cons_of_mem _, fun _ => trivial, .inl fun _ => rfl⟩
  · cases hproceed
    refine ⟨by simp [held], fun _ => trivial, ?_⟩
    cases work with
    | running id standing listed disabled =>
      exact .inr (.inr ⟨id, standing, listed, disabled, rfl, rfl⟩)
    | _ => exact .inl fun _ => rfl
  · cases hproceed

/-- The transactions of the goroutine itself leave attempts alone and have the promised
arguments. The goroutine is then in no run, as before, and holds no further job. -/
structure Commits (work : Work) (call : Call) (work' : Work) : Prop where
  quiet : call.writesAttempts = false
  issued : work.Promised → call.Issued ∧ work'.Promised
  held : ∀ id ∈ work'.held, id ∈ work.held
  frame : ∀ id, work'.frame id = work.frame id

theorem commits_of_call (reported : Bool) {call : Call}
    (hcall : work.call service now = some call) :
    Commits work call (work.committed reported) := by
  unfold Work.call at hcall
  split at hcall
  · cases hcall
    cases reported <;>
      exact ⟨rfl, fun _ => ⟨trivial, trivial⟩, by simp [held, committed], fun _ => rfl⟩
  · cases hcall
    cases reported <;>
      exact ⟨rfl, fun _ => ⟨trivial, trivial⟩, by simp [held, committed], fun _ => rfl⟩
  · cases hcall
    cases reported <;>
      exact ⟨rfl, fun _ => ⟨trivial, trivial⟩, by simp +contextual [held, committed], fun _ => rfl⟩
  · cases hcall
    exact ⟨rfl, fun promised => ⟨promised, trivial⟩, fun _ => List.mem_cons_of_mem _, fun _ => rfl⟩
  · cases hcall

theorem held_resume {running : JobID} {listed : List Job} {standing : Option Frame}
    (hmem : id ∈ (resume running listed disabled standing).held) :
    id ∈ running :: listed.map Job.id := by
  cases standing with
  | none => exact List.mem_cons_of_mem _ hmem
  | some frame => exact hmem

end Work

/-- A move of the action goroutine writes nothing or commits its transaction. -/
theorem Removed.store_eq {move : RemovalMove}
    (hremoved : Removed service store action move store' action') :
    store' = store ∨ ∃ now reported call, move = .commit now reported ∧
      action.call now = some call ∧ store.apply call = .ok store' := by
  cases hremoved with
  | list | skip | take | unstarted | answered | unfinished | leave | abandon => exact .inl rfl
  | started hcall => exact .inr ⟨_, _, _, rfl, rfl, map_eq_ok.mpr ⟨_, hcall, rfl⟩⟩
  | finished hcall => exact .inr ⟨_, _, _, rfl, rfl, hcall⟩

/-- A move of the engine writes nothing or commits a call. -/
theorem Advance.store_eq {id : JobID} {frame frame' : Option Frame} {move : Move}
    (hadvance : Advance id store frame move store' frame') :
    store' = store ∨ ∃ call, store.apply call = .ok store' := by
  cases hadvance with
  | run | got | loaded | repaired | submit | submitted | checked | stop => exact .inl rfl
  | @started _ now _ _ _ hcall => exact .inr ⟨.start id now, map_eq_ok.mpr ⟨_, hcall, rfl⟩⟩
  | updated _ hcall => exact .inr ⟨.updateAttempt _, hcall⟩

namespace System

/-- What each goroutine has in hand is of its service, and what it is about to
store is promised. -/
structure Orderly (system : System) : Prop where
  work : ∀ service, ∀ id ∈ (system.work service).held, Owned system.store service id
  action : ∀ service, ∀ id ∈ (system.action service).held, Owned system.store service id
  promised : ∀ service, (system.work service).Promised

variable {system system' : System} {event : SystemEvent}

theorem Cases.store_eq (hcases : Cases system event system') :
    system'.store = system.store ∨ ∃ call, system.store.apply call = .ok system'.store := by
  cases hcases with
  | proceed | crash => exact .inl rfl
  | commit _ applied | request _ applied => exact .inr ⟨_, applied⟩
  | run _ advanced => exact (advance_cases advanced).store_eq
  | action removed =>
    rcases removed.store_eq with hsame | ⟨-, -, call, -, -, hcall⟩
    · exact .inl hsame
    · exact .inr ⟨call, hcall⟩

variable {service : Service} {id : JobID}

theorem Cases.owned (hcases : Cases system event system') (owned : Owned system.store service id) :
    Owned system'.store service id := by
  rcases hcases.store_eq with hsame | ⟨call, hcall⟩
  · rw [hsame]
    exact owned
  · exact owned.apply hcall

/-- What the work goroutine has in hand after a step it had before, or it is of
its service. -/
theorem Cases.held_work (hcases : Cases system event system')
    (hmem : id ∈ (system'.work service).held) :
    id ∈ (system.work service).held ∨ Owned system.store service id := by
  have hupdate {mover : Service} {work : Work}
      (hnew : id ∈ work.held → id ∈ (system.work mover).held ∨ Owned system.store mover id) :=
    (Function.forall_update_iff system.work fun service work => id ∈ work.held →
      id ∈ (system.work service).held ∨ Owned system.store service id).mpr
      ⟨hnew, fun _ _ => .inl⟩ service
  cases hcases with
  | proceed proceed => exact hupdate ((Work.proceeds_of_proceed proceed).held _) hmem
  | commit calls =>
    exact hupdate (fun hmem => .inl ((Work.commits_of_call _ calls).held _ hmem)) hmem
  | run standing =>
    refine hupdate (fun hmem => .inl ?_) hmem
    rw [standing]
    exact Work.held_resume hmem
  | action | request => exact .inl hmem
  | crash => cases hmem

theorem Cases.held_action (hcases : Cases system event system')
    (hmem : id ∈ (system'.action service).held) :
    id ∈ (system.action service).held ∨ Owned system.store service id := by
  cases hcases with
  | proceed | commit | run | request => exact .inl hmem
  | action removed =>
    exact (Function.forall_update_iff system.action fun service action => id ∈ action.held →
      id ∈ (system.action service).held ∨ Owned system.store service id).mpr
      ⟨removed.held, fun _ _ => .inl⟩ service hmem
  | crash => cases hmem

theorem Cases.promised (hcases : Cases system event system')
    (promised : ∀ service, (system.work service).Promised) (service : Service) :
    (system'.work service).Promised := by
  have hupdate {mover : Service} {work : Work} (hnew : work.Promised) :
      (Function.update system.work mover work service).Promised :=
    (Function.forall_update_iff system.work fun _ => Work.Promised).mpr
      ⟨hnew, fun other _ => promised other⟩ service
  cases hcases with
  | @proceed mover _ _ proceed =>
    exact hupdate ((Work.proceeds_of_proceed proceed).promised (promised mover))
  | @commit mover _ _ _ _ calls =>
    exact hupdate ((Work.commits_of_call _ calls).issued (promised mover)).2
  | @run _ _ _ _ _ _ _ frame' =>
    refine hupdate ?_
    cases frame' <;> trivial
  | action | request => exact promised service
  | crash => trivial

theorem orderly_of_reaches {past : List (System × SystemEvent)}
    (hrun : Reaches Step init past system) : system.Orderly := by
  refine Reaches.invariant (fun _ system => system.Orderly) hrun
    ⟨fun _ _ hmem => (by cases hmem), fun _ _ hmem => (by cases hmem), fun _ => trivial⟩ ?_
  intro past system event system' _ orderly hstep
  have hcases := cases_of_step hstep
  refine ⟨fun service id hmem => ?_, fun service id hmem => ?_, hcases.promised orderly.promised⟩
  · rcases hcases.held_work hmem with hheld | howned
    · exact hcases.owned (orderly.work service id hheld)
    · exact hcases.owned howned
  · rcases hcases.held_action hmem with hheld | howned
    · exact hcases.owned (orderly.action service id hheld)
    · exact hcases.owned howned

end System

/-! ## The system simulates the engine -/

namespace Work

variable {service : Service} {store : Store} {work work' : Work} {move : WorkMove}

theorem frame_running_self (id : JobID) (standing : Frame) (listed : List Job) (disabled : Bool) :
    (Work.running id standing listed disabled).frame id = some standing := if_pos rfl

theorem frame_running_of_ne {id other : JobID} (hne : other ≠ id) (standing : Frame)
    (listed : List Job) (disabled : Bool) :
    (Work.running id standing listed disabled).frame other = none := if_neg hne.symm

theorem frame_resume_self (id : JobID) (standing : Option Frame) (listed : List Job)
    (disabled : Bool) : (resume id listed disabled standing).frame id = standing := by
  cases standing with
  | none => rfl
  | some frame => exact frame_running_self id frame listed disabled

theorem frame_resume_of_ne {id other : JobID} (hne : other ≠ id) (standing : Option Frame)
    (listed : List Job) (disabled : Bool) :
    (resume id listed disabled standing).frame other = none := by
  cases standing with
  | none => rfl
  | some frame => exact frame_running_of_ne hne frame listed disabled

end Work

namespace System

variable {system system' : System} {event : SystemEvent}

/-- The run a job is in, by either goroutine. -/
def frames (system : System) (id : JobID) : Option Frame :=
  (system.work .radarr).frame id <|> (system.work .lidarr).frame id

/-- The system as the machine of the engine sees it. -/
def engine (system : System) : Engine := ⟨system.store, system.frames⟩

variable {service : Service} {past : List (System × SystemEvent)}

/-- The goroutines of other services are not in a run of a job one holds. -/
theorem Orderly.frame_eq_none (orderly : system.Orderly) {other : Service} {id : JobID}
    (hheld : id ∈ (system.work service).held) (hne : other ≠ service) :
    (system.work other).frame id = none := by
  cases hframe : (system.work other).frame id with
  | none => rfl
  | some standing =>
    have howned := orderly.work other id (Work.mem_held_of_frame hframe)
    exact absurd (howned.unique (orderly.work service id hheld)) hne

theorem frames_of_none (service : Service) {id : JobID}
    (hnone : ∀ other, other ≠ service → (system.work other).frame id = none) :
    system.frames id = (system.work service).frame id := by
  cases service with
  | radarr => simp [frames, hnone .lidarr]
  | lidarr => simp [frames, hnone .radarr]

/-- A goroutine in a run holds the job, and the run is that of the job alone. -/
theorem Orderly.running (orderly : system.Orderly) {id : JobID} {standing : Frame}
    {listed : List Job} {disabled : Bool}
    (hstanding : system.work service = .running id standing listed disabled) :
    id ∈ (system.work service).held ∧ system.frames id = some standing ∧
      ∀ other, other ≠ id → (system.work service).frame other = none := by
  have hheld : id ∈ (system.work service).held := by
    rw [hstanding]
    exact List.mem_cons_self
  refine ⟨hheld, ?_, fun other hne => ?_⟩
  · rw [frames_of_none _ fun _ => orderly.frame_eq_none hheld, hstanding]
    exact Work.frame_running_self id standing listed disabled
  · rw [hstanding]
    exact Work.frame_running_of_ne hne standing listed disabled

/-- A goroutine that stays in its run leaves all runs alone. -/
theorem frames_update_of_eq (store : Store) {work : Work}
    (hframe : ∀ id, work.frame id = (system.work service).frame id) :
    frames { system with store := store, work := Function.update system.work service work } =
      system.frames := by
  funext id
  cases service <;> simp [frames, hframe]

/-- A goroutine that moves in its run of a job it holds moves that job alone. -/
theorem Orderly.frames_update (orderly : system.Orderly) (store : Store) (work : Work) {id : JobID}
    (hheld : id ∈ (system.work service).held)
    (hbefore : ∀ other, other ≠ id → (system.work service).frame other = none)
    (hafter : ∀ other, other ≠ id → work.frame other = none) :
    frames { system with store := store, work := Function.update system.work service work } =
      Function.update system.frames id (work.frame id) := by
  funext other
  by_cases hother : other = id
  · subst hother
    rw [Function.update_self, frames_of_none service]
    · exact congrArg (Work.frame other) (Function.update_self ..)
    · intro another hne
      change (Function.update system.work service work another).frame other = none
      rw [Function.update_of_ne hne]
      exact orderly.frame_eq_none hheld hne
  · rw [Function.update_of_ne hother]
    cases service <;> simp [frames, hbefore other hother, hafter other hother]

/-- Every step of the system is a step of the machine of the engine, or none. -/
theorem engine_of_step (orderly : system.Orderly) (hstep : system.Step event system') :
    system'.engine = system.engine ∨ ∃ event', system.engine.Step event' system'.engine := by
  -- a committed call that leaves all runs alone is a step of another component
  have hother {call : Call} (hissued : call.Issued) (hquiet : call.writesAttempts = false)
      (hcall : system.store.apply call = .ok system'.store)
      (hframes : system'.frames = system.frames) :
      ∃ event', system.engine.Step event' system'.engine := by
    refine ⟨.other call, ?_⟩
    have hnext : system.engine.Step (.other call) ⟨system'.store, system.frames⟩ :=
      Engine.step_other hquiet hissued hcall
    rwa [← hframes] at hnext
  cases cases_of_step hstep with
  | @proceed service move work proceed =>
    rcases (Work.proceeds_of_proceed proceed).frame with hsame |
      ⟨id, listed, disabled, hheld, hnone, rfl⟩ | ⟨id, standing, listed, disabled, hstanding, rfl⟩
    · left
      simp only [engine, frames_update_of_eq system.store hsame]
    · refine .inr ⟨.engine id .run, ?_⟩
      have hframes := orderly.frames_update system.store _ hheld (fun other _ => hnone other)
        fun other hne => Work.frame_running_of_ne hne .get listed disabled
      have hidle : system.frames id = none :=
        (frames_of_none _ fun _ => orderly.frame_eq_none hheld).trans (hnone id)
      simp only [Engine.Step, Engine.next, engine, hidle, hframes, Work.frame_running_self]
      rfl
    · refine .inr ⟨.engine id .stop, ?_⟩
      obtain ⟨hheld, hrunning, hothers⟩ := orderly.running hstanding
      have hframes := orderly.frames_update system.store .idle hheld hothers fun _ _ => rfl
      simp only [Engine.Step, Engine.next, engine, hrunning, hframes]
      cases standing <;> rfl
  | @commit service _ reported _ store calls applied =>
    have hcommits := Work.commits_of_call reported calls
    exact .inr (hother (hcommits.issued (orderly.promised service)).1 hcommits.quiet applied
      (frames_update_of_eq store hcommits.frame))
  | @run service move id standing listed disabled store frame' hstanding advanced =>
    refine .inr ⟨.engine id move, ?_⟩
    obtain ⟨hheld, hrunning, hothers⟩ := orderly.running hstanding
    have hframes := orderly.frames_update store (Work.resume id listed disabled frame') hheld
      hothers fun other hne => Work.frame_resume_of_ne hne frame' listed disabled
    simp only [Engine.Step, Engine.next, engine, hrunning, hframes, advanced,
      Work.frame_resume_self, Option.map_some]
  | action removed =>
    rcases removed.store_eq with hsame | ⟨now, reported, call, -, hmade, hcall⟩
    · left
      subst hsame
      rfl
    · obtain ⟨hissued, hquiet⟩ := Removal.issued_of_call hmade
      exact .inr (hother hissued hquiet hcall rfl)
  | request requests applied =>
    obtain ⟨hissued, hquiet⟩ := issued_of_operatorRequest requests
    exact .inr (hother hissued hquiet applied rfl)
  | crash => exact .inr ⟨.crash, rfl⟩

/-- What the system reaches, the machine of the engine reaches. -/
theorem engine_reaches (hrun : Reaches Step init past system) :
    ∃ past', Reaches Engine.Step Engine.init past' system.engine :=
  hrun.simulate engine fun hrun hstep => engine_of_step (orderly_of_reaches hrun) hstep

theorem sound_of_reaches (hrun : Reaches Step init past system) : system.engine.Sound := by
  obtain ⟨past', hengine⟩ := engine_reaches hrun
  exact Engine.sound_of_reaches hengine

/-- A step writes nothing or commits one issued call: one that writes attempts,
by a run of the engine, or the one its event stands for. -/
theorem Cases.step (hcases : Cases system event system') (orderly : system.Orderly)
    (sound : system.engine.Sound) :
    system'.store = system.store ∨ ∃ call, system.store.Step call system'.store ∧
      (call.writesAttempts = true ∨ system.call event = some call) := by
  cases hcases with
  | proceed | crash => exact .inl rfl
  | @commit service now reported call store calls applied =>
    obtain ⟨hissued, -⟩ := (Work.commits_of_call reported calls).issued (orderly.promised service)
    exact .inr ⟨call, ⟨hissued, applied⟩, .inr calls⟩
  | @run service move id standing listed disabled store frame' hstanding advanced =>
    obtain ⟨-, hframe, -⟩ := orderly.running hstanding
    have heffect := (advance_cases advanced).effect sound.agreement
      fun other hmem => sound.holds id other (hframe.trans hmem)
    rcases heffect.step with hsame | ⟨call, hwrites, hstep⟩
    · exact .inl hsame
    · exact .inr ⟨call, hstep, .inl hwrites⟩
  | action removed =>
    rcases removed.store_eq with hsame | ⟨now, reported, call, rfl, hmade, hcall⟩
    · exact .inl hsame
    · exact .inr ⟨call, ⟨(Removal.issued_of_call hmade).1, hcall⟩, .inr hmade⟩
  | request requests applied =>
    exact .inr ⟨_, ⟨(issued_of_operatorRequest requests).1, applied⟩, .inr rfl⟩

/-- The law of one committed call is a law of the system. -/
theorem store_invariant (law : Store → Prop) (hrun : Reaches Step init past system)
    (hstart : law Store.empty)
    (hcall : ∀ {store call store'}, store.Agreement → law store → store.Step call store' →
      law store') : law system.store := by
  refine Reaches.invariant (fun _ system => law system.store) hrun hstart ?_
  intro past system event system' hrun hlaw hstep
  have sound := sound_of_reaches hrun
  rcases (cases_of_step hstep).step (orderly_of_reaches hrun) sound with hsame | ⟨call, hissued, -⟩
  · rw [hsame]
    exact hlaw
  · exact hcall sound.agreement hlaw hissued

end System

end Runs

namespace System

attribute [local instance] compactSerializer

/-- A queue entry with evidence. -/
def entryObserved : Observation :=
  ⟨[⟨{ Job.zero .radarr with evidence := ascii "1" }, rfl⟩], [⟨0, ""⟩], []⟩

/-- The work goroutine observes the entry. -/
def observeEvents (now : Time) : List SystemEvent :=
  [.work .radarr .observe, .work .radarr (.observed entryObserved),
    .work .radarr (.commit now true), .work .radarr (.commit now true),
    .work .radarr (.complete false)]

end System

end NixConfig.MediaRepair.Repair
