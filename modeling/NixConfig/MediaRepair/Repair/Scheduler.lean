/-
# The scheduler

Each service has a work goroutine, which observes its queue, plans its jobs and
runs them, and an action goroutine, which removes queue entries on request.
Both share the store with the other service and with the operators' requests,
and every transaction can fall between any two of theirs. As for a run of the
engine, a goroutine is modelled by where it stands with the values it still
reads; what it holds are copies, made when it listed its jobs.

A goroutine's own transactions are one function of where it stands, `Work.call`;
a run of the engine inside it moves as in the machine of the engine.
-/

import NixConfig.MediaRepair.Repair.Engine
import NixConfig.MediaRepair.Repair.Planning

namespace NixConfig.MediaRepair.Repair

open Data Semantics Jobs

/-! ## The action goroutine -/

/-- Where the action goroutine stands. -/
inductive Removal
  | idle
  /-- Looking for requests among the listed jobs. -/
  | listed (jobs : List Job)
  /-- About to start the removal of a job. -/
  | starting (id : JobID) (jobs : List Job)
  /-- `Service.Remove` is working. -/
  | calling (requested : Job) (jobs : List Job)
  /-- About to finish a removal; `failure` is the error of `Remove`. -/
  | finishing (requested : Job) (failure : Option String) (jobs : List Job)

/-- What the action goroutine does next. -/
inductive RemovalMove
  | list
  | turn (now : Time)
  | commit (now : Time) (reported : Bool)
  | refused (now : Time)
  | removed (failure : Option String)
  | stop

namespace Removal

/-- One move of `removeRequested`, when it is possible. -/
def next (service : Service) (store : Store) : Removal → RemovalMove → Option (Store × Removal)
  | .idle, .list => some (store, .listed (store.list service))
  | .listed (job :: jobs), .turn now =>
    some (store, if job.pendingAction ≠ .delete ∨ now < job.retryAt then .listed jobs
      else .starting job.id jobs)
  | .starting id jobs, .commit now reported =>
    match store.startRemoval id now with
    | .ok (store, requested) => some (store, if reported then .calling requested jobs else .idle)
    | .error _ => none
  | .starting id jobs, .refused now =>
    match store.startRemoval id now with
    | .error .conflict => some (store, .listed jobs)
    | _ => none
  | .calling requested jobs, .removed failure => some (store, .finishing requested failure jobs)
  | .finishing requested failure jobs, .commit now _ =>
    match store.finishRemoval requested failure now with
    | .ok store => some (store, .listed jobs)
    | .error _ => none
  | .finishing _ _ jobs, .refused _ => some (store, .listed jobs)
  | .listed _, .stop => some (store, .idle)
  | .starting _ _, .stop => some (store, .idle)
  | _, _ => none

/-- The transaction the goroutine is about to make. -/
def call (now : Time) : Removal → Option Call
  | .starting id _ => some (.startRemoval id now)
  | .finishing requested failure _ => some (.finishRemoval requested failure now)
  | _ => none

/-- The removal in progress: `Remove` was called, and its result is not stored. -/
def inProgress : Removal → Option Job
  | .calling requested _ | .finishing requested _ _ => some requested
  | _ => none

end Removal

/-- What one move of the action goroutine can do. -/
inductive Removed (service : Service) (store : Store) :
    Removal → RemovalMove → Store → Removal → Prop
  | list : Removed service store .idle .list store (.listed (store.list service))
  | skip {job : Job} {jobs : List Job} {now : Time} :
      Removed service store (.listed (job :: jobs)) (.turn now) store (.listed jobs)
  | take {job : Job} {jobs : List Job} {now : Time} (asked : job.pendingAction = .delete) :
      Removed service store (.listed (job :: jobs)) (.turn now) store (.starting job.id jobs)
  | started {id : JobID} {jobs : List Job} {now : Time} {reported : Bool} {store' : Store}
      {requested : Job} (call : store.startRemoval id now = .ok (store', requested)) :
      Removed service store (.starting id jobs) (.commit now reported) store'
        (if reported then .calling requested jobs else .idle)
  | unstarted {id : JobID} {jobs : List Job} {now : Time} :
      Removed service store (.starting id jobs) (.refused now) store (.listed jobs)
  | answered {requested : Job} {jobs : List Job} {failure : Option String} :
      Removed service store (.calling requested jobs) (.removed failure) store
        (.finishing requested failure jobs)
  | finished {requested : Job} {failure : Option String} {jobs : List Job} {now : Time}
      {reported : Bool} {store' : Store}
      (call : store.finishRemoval requested failure now = .ok store') :
      Removed service store (.finishing requested failure jobs) (.commit now reported) store'
        (.listed jobs)
  | unfinished {requested : Job} {failure : Option String} {jobs : List Job} {now : Time} :
      Removed service store (.finishing requested failure jobs) (.refused now) store (.listed jobs)
  | leave {jobs : List Job} : Removed service store (.listed jobs) .stop store .idle
  | abandon {id : JobID} {jobs : List Job} :
      Removed service store (.starting id jobs) .stop store .idle

theorem removed_of_next {service : Service} {store store' : Store} {action action' : Removal}
    {move : RemovalMove} (hnext : action.next service store move = some (store', action')) :
    Removed service store action move store' action' := by
  unfold Removal.next at hnext
  split at hnext
  · cases hnext
    exact .list
  · split_ifs at hnext with hguard
    · cases hnext
      exact .skip
    · cases hnext
      push Not at hguard
      exact .take hguard.1
  · split at hnext
    · rename_i hcall
      cases hnext
      exact .started hcall
    · cases hnext
  · split at hnext
    · cases hnext
      exact .unstarted
    · cases hnext
  · cases hnext
    exact .answered
  · split at hnext
    · rename_i hcall
      cases hnext
      exact .finished hcall
    · cases hnext
  · cases hnext
    exact .unfinished
  · cases hnext
    exact .leave
  · cases hnext
    exact .abandon
  · cases hnext

/-! ## The work goroutine -/

/-- What `advanceJob` does with a job. -/
inductive Turn | skip | plan | run
  deriving DecidableEq

/-- `advanceJob`. -/
def advanceJob (job : Job) (disabled ready : Bool) (now : Time) : Turn :=
  if job.state = .importing ∨ job.state = .running then .run
  else if !job.inQueue then .skip
  else if now < job.retryAt then .skip
  else if job.pendingAction = .delete then .skip
  else if job.state = .observed ∧ job.collectionError = "" ∧ job.evidence.len ≠ 0 then .plan
  else if job.state = .ready ∧ job.collectionError = "" ∧ !disabled ∧ ready then .run
  else .skip

/-- The jobs `requestCompletedRemovals` requests the removal of. -/
def completed (complete : List QueueKey) (listed : List Job) : List Job :=
  listed.filter fun job =>
    job.queueKey ∈ complete ∧ job.pendingAction = .none ∧ job.state ≠ .removed

variable [JSONSerializer]

/-- A job as a service observes it. Both services marshal its evidence from a struct, so it
is in the form that is stored. -/
structure ObservedJob where
  job : Job
  marshalled : job.evidence.column = .ok job.evidence
  deriving DecidableEq

/-- What a service observed of its queue. -/
structure Observation where
  jobs : List ObservedJob
  queue : List QueueKey
  complete : List QueueKey
  deriving DecidableEq

/-- Where the work goroutine stands. The copies it still has to deal with come
first, `disabled` is what it read at the start of `advance`. -/
inductive Work
  | idle
  /-- `Service.Observe` is working. -/
  | observing (previous : List Job)
  /-- About to reconcile with the queue. -/
  | reconciling (observation : Observation)
  /-- Storing the observed jobs. -/
  | recording (observed : List ObservedJob) (complete : List QueueKey)
  /-- Requesting the removal of completed jobs. -/
  | requesting (listed : List Job)
  /-- Advancing the listed jobs. -/
  | advancing (listed : List Job) (disabled : Bool)
  /-- `Service.Plan` is working. -/
  | planning (job : Job) (listed : List Job) (disabled : Bool)
  /-- About to store a planning answer. -/
  | answering (planned : Job) (listed : List Job) (disabled : Bool)
  /-- `Engine.Run` is working. -/
  | running (id : JobID) (frame : Frame) (listed : List Job) (disabled : Bool)

/-- What the work goroutine does next, with the answers and clock readings it
gets. -/
inductive WorkMove
  | observe
  | observed (observation : Observation)
  | complete (disabled : Bool)
  | advance (disabled : Bool)
  | turn (now : Time) (ready : Bool)
  | planned (answer : Except String Decision) (now : Time)
  /-- The transaction is refused; the goroutine goes on. -/
  | refused (now : Time)
  /-- The transaction commits; `reported` unless its result is lost. -/
  | commit (now : Time) (reported : Bool)
  | run (move : Move)
  /-- `observe` or `advance` returns early. -/
  | stop

namespace Work

/-- The moves that write nothing. -/
def proceed (service : Service) (store : Store) : Work → WorkMove → Option Work
  | .idle, .observe => some (.observing (store.list service))
  | .observing _, .observed observation => some (.reconciling observation)
  | .recording [] complete, .complete disabled =>
    some (if disabled ∨ complete = [] then .idle
      else .requesting (completed complete (store.list service)))
  | .requesting (job :: listed), .refused now =>
    match store.requestAction job.id .delete "" 0 now none with
    | .error .conflict => some (.requesting listed)
    | _ => none
  | .idle, .advance disabled => some (.advancing (store.list service) disabled)
  | .advancing (job :: listed) disabled, .turn now ready =>
    match advanceJob job disabled ready now with
    | .skip => some (.advancing listed disabled)
    | .plan => some (.planning job listed disabled)
    | .run => some (.running job.id .get listed disabled)
  | .planning job listed disabled, .planned answer now =>
    some (.answering (Repair.planned job answer now) listed disabled)
  | .answering _ listed disabled, .refused _ => some (.advancing listed disabled)
  | _, .stop => some .idle
  | _, _ => none

/-- The transaction the goroutine is about to make. -/
def call (service : Service) (now : Time) : Work → Option Call
  | .reconciling observation => some (.reconcileQueue service observation.queue now)
  | .recording (observed :: _) _ =>
    some (.observe { observed.job with service := service, updatedAt := now })
  | .requesting (job :: _) => some (.requestAction job.id .delete "" 0 now)
  | .answering planned _ _ => some (.finishPlanning planned)
  | _ => none

/-- Where the goroutine stands after its transaction. An error ends `observe`,
but `advance` goes on with the next job. -/
def committed (reported : Bool) : Work → Work
  | .reconciling observation =>
    if reported then .recording observation.jobs observation.complete else .idle
  | .recording (_ :: observed) complete => if reported then .recording observed complete else .idle
  | .requesting (_ :: listed) => if reported then .requesting listed else .idle
  | .answering _ listed disabled => .advancing listed disabled
  | work => work

/-- Where the goroutine stands after a move of the run. -/
def resume (id : JobID) (listed : List Job) (disabled : Bool) : Option Frame → Work
  | some frame => .running id frame listed disabled
  | none => .advancing listed disabled

/-- One move of the work goroutine, when it is possible. -/
def next (service : Service) (store : Store) (work : Work) : WorkMove → Option (Store × Work)
  | .commit now reported =>
    match work.call service now with
    | none => none
    | some call => (store.next call).map fun store => (store, work.committed reported)
  | .run move =>
    match work with
    | .running id frame listed disabled =>
      (Repair.advance id store (some frame) move).map fun result =>
        (result.1, resume id listed disabled result.2)
    | _ => none
  | move => (work.proceed service store move).map fun work => (store, work)

end Work

/-! ## The system -/

/-- The store and the goroutines of each service. -/
structure System where
  store : Store
  work : Service → Work
  action : Service → Removal

inductive SystemEvent
  | work (service : Service) (move : WorkMove)
  | action (service : Service) (move : RemovalMove)
  /-- A request of an operator commits. -/
  | request (call : Call)
  | crash

/-- The calls operators make, from the page of a job and from the inbox. -/
def operatorRequest : Call → Bool
  | .requestAction .. | .requestReconsideration .. => true
  | _ => false

namespace System

def init : System := ⟨Store.empty, fun _ => .idle, fun _ => .idle⟩

/-- One step of the system, when the event is possible. -/
def next (system : System) : SystemEvent → Option System
  | .work service move =>
    ((system.work service).next service system.store move).map fun result =>
      { system with store := result.1, work := Function.update system.work service result.2 }
  | .action service move =>
    ((system.action service).next service system.store move).map fun result =>
      { system with store := result.1, action := Function.update system.action service result.2 }
  | .request call =>
    if operatorRequest call then
      (system.store.next call).map fun store => { system with store := store }
    else none
  | .crash => some { system with work := fun _ => .idle, action := fun _ => .idle }

def Step (system : System) (event : SystemEvent) (system' : System) : Prop :=
  system.next event = some system'

/-- The transaction an event commits, those of runs of the engine apart. -/
def call (system : System) : SystemEvent → Option Call
  | .work service (.commit now _) => (system.work service).call service now
  | .action service (.commit now _) => (system.action service).call now
  | .request call => some call
  | _ => none

end System

namespace System

/-- What one step can do. -/
inductive Cases (system : System) : SystemEvent → System → Prop
  | proceed {service : Service} {move : WorkMove} {work : Work}
      (proceed : (system.work service).proceed service system.store move = some work) :
      Cases system (.work service move)
        { system with work := Function.update system.work service work }
  | commit {service : Service} {now : Time} {reported : Bool} {call : Call} {store : Store}
      (calls : (system.work service).call service now = some call)
      (applied : system.store.apply call = .ok store) :
      Cases system (.work service (.commit now reported))
        { system with
          store := store
          work := Function.update system.work service ((system.work service).committed reported) }
  | run {service : Service} {move : Move} {id : JobID} {frame : Frame} {listed : List Job}
      {disabled : Bool} {store : Store} {frame' : Option Frame}
      (standing : system.work service = .running id frame listed disabled)
      (advanced : Repair.advance id system.store (some frame) move = some (store, frame')) :
      Cases system (.work service (.run move))
        { system with
          store := store
          work := Function.update system.work service (Work.resume id listed disabled frame') }
  | action {service : Service} {move : RemovalMove} {store : Store} {action : Removal}
      (removed : Removed service system.store (system.action service) move store action) :
      Cases system (.action service move)
        { system with store := store, action := Function.update system.action service action }
  | request {call : Call} {store : Store} (requests : operatorRequest call = true)
      (applied : system.store.apply call = .ok store) :
      Cases system (.request call) { system with store := store }
  | crash : Cases system .crash { system with work := fun _ => .idle, action := fun _ => .idle }

theorem cases_of_step {system system' : System} {event : SystemEvent}
    (hstep : system.Step event system') : Cases system event system' := by
  unfold Step at hstep
  cases event with
  | work service move =>
    simp only [next, Option.map_eq_some_iff] at hstep
    obtain ⟨⟨store, work⟩, hnext, rfl⟩ := hstep
    unfold Work.next at hnext
    split at hnext
    · split at hnext
      · cases hnext
      rename_i hcalls
      obtain ⟨saved, hsaved, ⟨⟩⟩ := Option.map_eq_some_iff.mp hnext
      exact .commit hcalls (Store.commits_of_next _ _ _ hsaved)
    · split at hnext
      · rename_i hstanding
        obtain ⟨⟨saved, frame⟩, hadvance, ⟨⟩⟩ := Option.map_eq_some_iff.mp hnext
        exact .run hstanding hadvance
      · cases hnext
    · obtain ⟨proceeded, hproceed, ⟨⟩⟩ := Option.map_eq_some_iff.mp hnext
      exact .proceed hproceed
  | action service move =>
    simp only [next, Option.map_eq_some_iff] at hstep
    obtain ⟨⟨store, action⟩, hnext, rfl⟩ := hstep
    exact .action (removed_of_next hnext)
  | request call =>
    simp only [next, Option.ite_none_right_eq_some, Option.map_eq_some_iff] at hstep
    obtain ⟨hissued, store, hstore, rfl⟩ := hstep
    exact .request hissued (Store.commits_of_next _ _ _ hstore)
  | crash =>
    cases hstep
    exact .crash

end System

end NixConfig.MediaRepair.Repair
