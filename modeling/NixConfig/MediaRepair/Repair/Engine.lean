/-
# The repair engine

`Engine.Run` starts the plan of a ready job or recovers the attempt of a
working one. Between its store transactions and its calls of the adapter the
process can stop anywhere, so a run is modelled by where it stands: a frame
holds exactly the local values the rest of the run still reads. One move takes
a frame to the next; a transaction may also commit and yet report an error,
which ends the run, and a run may end at any point. A crash ends all runs.

The scheduler runs a job one run at a time, and no other component writes
attempts. Hence a frame's copy of its attempt is never stale: `Frame.Holds`
says how each frame's copy follows from one whose request and receipt, marshalled,
are those of the stored attempt.
-/

import NixConfig.MediaRepair.Jobs.Agreement

namespace NixConfig.MediaRepair.Repair

open Data Semantics Jobs

/-- What `Adapter.Repair` prepared to import. -/
structure PreparedImport where
  outputPath : String
  request : RawMessage
  historyIDBefore : Int
  deriving DecidableEq, Repr

/-- What `Adapter.CheckImport` found out about an import. -/
structure ImportStatus where
  receipt : RawMessage
  failure : String
  deriving DecidableEq, Repr

/-- An error of `Adapter.Repair`; `blocked` when a `BlockedError` is in it. -/
structure RepairError where
  text : String
  blocked : Bool
  deriving DecidableEq, Repr

/-! ## The attempts a run passes to `UpdateAttempt` -/

/-- `finish`. -/
def finished (attempt : Attempt) (state : State) (reason : String) (now : Time) : Attempt :=
  { attempt with state := state, reason := reason, updatedAt := now }

/-- The attempt `execute` stores before it submits the import. -/
def intended (attempt : Attempt) (prepared : PreparedImport) (now : Time) : Attempt :=
  { attempt with
    outputPath := prepared.outputPath
    importRequest := prepared.request
    historyIDBefore := prepared.historyIDBefore
    state := .importing
    importStartedAt := now
    updatedAt := now }

/-- The attempt `execute` stores after `Submit` answered, with a command or an
error. -/
def submitted (attempt : Attempt) (answer : Except String Int) (now : Time) : Attempt :=
  match answer with
  | .error text =>
    { attempt with reason := "import submission uncertain: " ++ text, updatedAt := now }
  | .ok commandID => { attempt with commandID := commandID, updatedAt := now }

/-- The part of `reconcile` for a failure without a receipt: `clock` and
`later` are its two readings of the time. -/
def awaited (attempt : Attempt) (failure : String) (clock later : Time) : Attempt :=
  let attempt :=
    if attempt.importTerminalAt = 0 then { attempt with importTerminalAt := clock } else attempt
  let attempt := { attempt with reason := "command finished; waiting for import history" }
  if later - attempt.importTerminalAt ≥ 30 * second then
    { attempt with state := .failed, reason := failure }
  else
    attempt

/-- The attempt `reconcile` stores after `CheckImport` answered. -/
def reconciled (attempt : Attempt) (answer : Except String ImportStatus)
    (clock later now : Time) : Attempt :=
  let attempt :=
    match answer with
    | .error text => { attempt with reason := "checking import: " ++ text }
    | .ok status =>
      if status.receipt.len ≠ 0 then
        { attempt with state := .imported, reason := "", importReceipt := status.receipt }
      else if status.failure ≠ "" then
        awaited attempt status.failure clock later
      else if attempt.commandID = 0 then
        { attempt with
          reason := "import submission uncertain; checking history without resubmitting" }
      else
        attempt
  { attempt with updatedAt := now }

/-! ## Frames and moves -/

/-- Where a run stands. -/
inductive Frame
  /-- About to read the job. -/
  | get
  /-- About to start an attempt of the job it read. -/
  | start (job : Job)
  /-- About to read the latest attempt. -/
  | load
  /-- `Repair` is working. -/
  | repair (job : Job) (attempt : Attempt)
  /-- About to store the intent to import. -/
  | persist (attempt : Attempt)
  /-- About to call `Submit`. -/
  | submit (attempt : Attempt)
  /-- `Submit` is working. -/
  | submitting (attempt : Attempt)
  /-- About to store what `Submit` answered. -/
  | record (attempt : Attempt)
  /-- `CheckImport` is working. -/
  | check (attempt : Attempt)
  /-- About to store what `CheckImport` answered. -/
  | settle (attempt : Attempt)
  /-- About to store the end of the attempt. -/
  | finish (attempt : Attempt)
  deriving DecidableEq

/-- What a run does next, with the answers and clock readings it gets. -/
inductive Move
  | run
  | got
  | loaded (now : Time)
  /-- The transaction of the frame commits; `reported` unless its result is
  lost. -/
  | commit (now : Time) (reported : Bool)
  | repaired (answer : Except RepairError PreparedImport) (now : Time)
  | submit
  | submitted (answer : Except String Int) (now : Time)
  | checked (answer : Except String ImportStatus) (clock later now : Time)
  /-- The run returns: a read or transaction failed, or it was cancelled. -/
  | stop

/-- How `Run` goes on with the job it read; `none` when there is nothing to do. -/
def afterGet (job : Job) : Option Frame :=
  if job.state = .ready then some (.start job)
  else if job.state = .running ∨ job.state = .importing then some .load
  else none

/-- How `Run` goes on with an attempt of an earlier run. -/
def afterLoad (attempt : Attempt) (now : Time) : Frame :=
  if attempt.state = .running then
    .finish (finished attempt .failed "repair interrupted before import; reconsider to retry" now)
  else
    .check attempt

/-- How `execute` goes on after `Repair`. -/
def afterRepair (attempt : Attempt) (answer : Except RepairError PreparedImport) (now : Time) :
    Frame :=
  match answer with
  | .error failure =>
    .finish (finished attempt (if failure.blocked then .blocked else .failed) failure.text now)
  | .ok prepared => .persist (intended attempt prepared now)

/-- The attempt a frame is about to write. -/
def Frame.written : Frame → Option Attempt
  | .persist attempt | .record attempt | .settle attempt | .finish attempt => some attempt
  | _ => none

/-- How a run goes on once that is stored. -/
def Frame.afterUpdate : Frame → Option Frame
  | .persist attempt => some (.submit attempt)
  | .record attempt => some (.check attempt)
  | _ => none

theorem lastAttempt_of_latestAttempt {id : JobID} {store : Store} {attempt : Attempt}
    (hlatest : store.latestAttempt id = .ok attempt) : store.lastAttempt id = some attempt := by
  unfold Store.latestAttempt at hlatest
  split at hlatest
  · cases hlatest
    assumption
  · cases hlatest

section Advance

variable [JSONSerializer]

/-- One move of the run of a job, when it is possible. -/
def advance (id : JobID) (store : Store) : Option Frame → Move → Option (Store × Option Frame)
  | none, .run => some (store, some .get)
  | some .get, .got =>
    match store.get id with
    | .ok job => some (store, afterGet job)
    | .error _ => none
  | some (.start job), .commit now reported =>
    match store.start id now with
    | .ok (store, attempt) => some (store, if reported then some (.repair job attempt) else none)
    | .error _ => none
  | some .load, .loaded now =>
    match store.latestAttempt id with
    | .ok attempt => some (store, some (afterLoad attempt now))
    | .error _ => none
  | some (.repair _ attempt), .repaired answer now =>
    some (store, some (afterRepair attempt answer now))
  | some (.persist attempt), .commit _ reported =>
    match store.updateAttempt attempt with
    | .ok store => some (store, if reported then some (.submit attempt) else none)
    | .error _ => none
  | some (.submit attempt), .submit => some (store, some (.submitting attempt))
  | some (.submitting attempt), .submitted answer now =>
    some (store, some (.record (submitted attempt answer now)))
  | some (.record attempt), .commit _ reported =>
    match store.updateAttempt attempt with
    | .ok store => some (store, if reported then some (.check attempt) else none)
    | .error _ => none
  | some (.check attempt), .checked answer clock later now =>
    some (store, some (.settle (reconciled attempt answer clock later now)))
  | some (.settle attempt), .commit _ _ =>
    match store.updateAttempt attempt with
    | .ok store => some (store, none)
    | .error _ => none
  | some (.finish attempt), .commit _ _ =>
    match store.updateAttempt attempt with
    | .ok store => some (store, none)
    | .error _ => none
  | some _, .stop => some (store, none)
  | _, _ => none

/-- What one move can do. -/
inductive Advance (id : JobID) (store : Store) :
    Option Frame → Move → Store → Option Frame → Prop
  | run : Advance id store none .run store (some .get)
  | got {job : Job} (found : store.jobs.find id = some job) :
      Advance id store (some .get) .got store (afterGet job)
  | started {job : Job} {now : Time} {reported : Bool} {store' : Store} {attempt : Attempt}
      (call : store.start id now = .ok (store', attempt)) :
      Advance id store (some (.start job)) (.commit now reported) store'
        (if reported then some (.repair job attempt) else none)
  | loaded {attempt : Attempt} {now : Time} (last : store.lastAttempt id = some attempt) :
      Advance id store (some .load) (.loaded now) store (some (afterLoad attempt now))
  | repaired {job : Job} {attempt : Attempt} {answer : Except RepairError PreparedImport}
      {now : Time} :
      Advance id store (some (.repair job attempt)) (.repaired answer now) store
        (some (afterRepair attempt answer now))
  | submit {attempt : Attempt} :
      Advance id store (some (.submit attempt)) .submit store (some (.submitting attempt))
  | submitted {attempt : Attempt} {answer : Except String Int} {now : Time} :
      Advance id store (some (.submitting attempt)) (.submitted answer now) store
        (some (.record (submitted attempt answer now)))
  | checked {attempt : Attempt} {answer : Except String ImportStatus} {clock later now : Time} :
      Advance id store (some (.check attempt)) (.checked answer clock later now) store
        (some (.settle (reconciled attempt answer clock later now)))
  | updated {standing : Frame} {later : Option Frame} {attempt : Attempt} {now : Time}
      {reported : Bool} {store' : Store} (written : standing.written = some attempt)
      (call : store.updateAttempt attempt = .ok store')
      (after : later = standing.afterUpdate ∨ later = none) :
      Advance id store (some standing) (.commit now reported) store' later
  | stop {frame : Frame} : Advance id store (some frame) .stop store none

theorem advance_cases {id : JobID} {store store' : Store} {frame frame' : Option Frame} {move : Move}
    (hadvance : advance id store frame move = some (store', frame')) :
    Advance id store frame move store' frame' := by
  fun_cases advance id store frame move
  all_goals simp only [advance, *, reduceCtorEq] at hadvance
  all_goals (try cases hadvance)
  case case2 hget => exact .got (Store.first_eq_ok.mp hget)
  case case6 hlatest => exact .loaded (lastAttempt_of_latestAttempt hlatest)
  case case9 hcall => exact .updated rfl hcall (ite_eq_or_eq ..)
  case case13 hcall => exact .updated rfl hcall (ite_eq_or_eq ..)
  case case16 hcall | case18 hcall => exact .updated rfl hcall (.inr rfl)
  all_goals first | (constructor; assumption) | constructor

end Advance

/-! ## The machine -/

/-- The store and the run of each job, if there is one. -/
structure Engine where
  store : Store
  frames : JobID → Option Frame

/-- A move of one run, a committed call of another component, or a crash. -/
inductive EngineEvent
  | engine (id : JobID) (move : Move)
  | other (call : Call)
  | crash

namespace Engine

def init : Engine := ⟨Store.empty, fun _ => none⟩

section Steps

variable [JSONSerializer]

/-- One step of the machine, when the event is possible. Other components do not
write attempts. -/
def next (engine : Engine) : EngineEvent → Option Engine
  | .engine id move =>
    (advance id engine.store (engine.frames id) move).map fun result =>
      ⟨result.1, Function.update engine.frames id result.2⟩
  | .other call =>
    if call.writesAttempts then none
    else (engine.store.nextIssued call).map fun store => { engine with store := store }
  | .crash => some { engine with frames := fun _ => none }

def Step (engine : Engine) (event : EngineEvent) (engine' : Engine) : Prop :=
  engine.next event = some engine'

/-- What one step can do. -/
inductive Cases (engine : Engine) : EngineEvent → Engine → Prop
  | engine {id : JobID} {move : Move} {store : Store} {frame : Option Frame}
      (advance : Advance id engine.store (engine.frames id) move store frame) :
      Cases engine (.engine id move) ⟨store, Function.update engine.frames id frame⟩
  | other {call : Call} {store : Store} (quiet : call.writesAttempts = false)
      (step : engine.store.Step call store) :
      Cases engine (.other call) { engine with store := store }
  | crash : Cases engine .crash { engine with frames := fun _ => none }

theorem cases_of_step {engine engine' : Engine} {event : EngineEvent}
    (hstep : engine.Step event engine') : Cases engine event engine' := by
  unfold Step at hstep
  cases event with
  | engine id move =>
    simp only [next, Option.map_eq_some_iff] at hstep
    obtain ⟨⟨store, frame⟩, hadvance, rfl⟩ := hstep
    exact .engine (advance_cases hadvance)
  | other call =>
    simp only [next, Option.ite_none_left_eq_some, Option.map_eq_some_iff] at hstep
    obtain ⟨hquiet, store, hstore, rfl⟩ := hstep
    exact .other (by simpa using hquiet) (Store.step_of_nextIssued _ _ _ hstore)
  | crash =>
    cases hstep
    exact .crash

/-- A committed call of another component is a step of the machine. -/
theorem step_other {engine : Engine} {call : Call} {store : Store}
    (hquiet : call.writesAttempts = false) (hissued : call.Issued)
    (hcall : engine.store.apply call = .ok store) :
    engine.Step (.other call) { engine with store := store } := by
  have hnext : engine.store.nextIssued call = some store := by
    rw [Store.nextIssued, if_pos hissued, Store.next, hcall]
    rfl
  simp only [Step, next, hquiet, Bool.false_eq_true, if_false, hnext, Option.map_some]

end Steps

end Engine

variable {store store' : Store}

variable {id : JobID} {frame : Frame} {stored copy attempt row : Attempt}

/-! ## A frame's copy follows from the stored attempt -/

/-- The frames a run can be in while it has a copy of its attempt. -/
inductive Frame.Follows (copy : Attempt) : Frame → Prop
  | repair {job : Job} (running : copy.state = .running) : Follows copy (.repair job copy)
  | persist {prepared : PreparedImport} {now : Time} (running : copy.state = .running) :
      Follows copy (.persist (intended copy prepared now))
  | submit (importing : copy.state = .importing) : Follows copy (.submit copy)
  | submitting (importing : copy.state = .importing) : Follows copy (.submitting copy)
  | record {answer : Except String Int} {now : Time} (importing : copy.state = .importing) :
      Follows copy (.record (submitted copy answer now))
  | check (notRunning : copy.state ≠ .running) : Follows copy (.check copy)
  | settle {answer : Except String ImportStatus} {clock later now : Time}
      (notRunning : copy.state ≠ .running) :
      Follows copy (.settle (reconciled copy answer clock later now))
  | finish {state : State} {reason : String} {now : Time} (running : copy.state = .running)
      (ends : state = .failed ∨ state = .blocked) :
      Follows copy (.finish (finished copy state reason now))

section Copies

variable (attempt : Attempt)

/-! A copy differs from the stored attempt in columns that `UpdateAttempt`
writes, so writing the copy stores the copy. -/

@[simp] theorem overwrite_intended (prepared : PreparedImport) (now : Time) :
    Store.overwriteAttempt attempt (intended attempt prepared now) =
      intended attempt prepared now := rfl

@[simp] theorem overwrite_submitted (answer : Except String Int) (now : Time) :
    Store.overwriteAttempt attempt (submitted attempt answer now) =
      submitted attempt answer now := by
  cases answer <;> rfl

@[simp] theorem overwrite_finished (state : State) (reason : String) (now : Time) :
    Store.overwriteAttempt attempt (finished attempt state reason now) =
      finished attempt state reason now := rfl

theorem overwrite_awaited (failure : String) (clock later : Time) :
    Store.overwriteAttempt attempt (awaited attempt failure clock later) =
      awaited attempt failure clock later := by
  unfold awaited
  dsimp only
  split <;> split <;> rfl

@[simp] theorem overwrite_reconciled (answer : Except String ImportStatus)
    (clock later now : Time) :
    Store.overwriteAttempt attempt (reconciled attempt answer clock later now) =
      reconciled attempt answer clock later now := by
  cases answer with
  | error text => rfl
  | ok status =>
    unfold reconciled
    dsimp only
    split
    · rfl
    split
    · -- only `updatedAt` is set after `awaited`, and it is a written column
      have hkeep := overwrite_awaited attempt status.failure clock later
      exact congrArg (fun row : Attempt => { row with updatedAt := now }) hkeep
    · split <;> rfl

end Copies

/-- What a frame writes is its copy in all columns that `UpdateAttempt` does not write. -/
theorem Frame.Follows.overwrite (follows : frame.Follows copy)
    (hwritten : frame.written = some attempt) :
    Store.overwriteAttempt copy attempt = attempt := by
  cases follows <;> cases hwritten <;> simp

theorem Frame.Follows.key (follows : frame.Follows copy)
    (hwritten : frame.written = some attempt) : attempt.key = copy.key := by
  rw [← follows.overwrite hwritten]
  rfl

theorem state_submitted (attempt : Attempt) (answer : Except String Int) (now : Time) :
    (submitted attempt answer now).state = attempt.state := by
  cases answer <;> rfl

theorem state_awaited (attempt : Attempt) (failure : String) (clock later : Time) :
    (awaited attempt failure clock later).state = attempt.state ∨
      (awaited attempt failure clock later).state = .failed := by
  unfold awaited
  dsimp only
  split <;> split <;> simp

theorem state_reconciled (attempt : Attempt) (answer : Except String ImportStatus)
    (clock later now : Time) :
    (reconciled attempt answer clock later now).state = attempt.state ∨
      (reconciled attempt answer clock later now).state = .imported ∨
      (reconciled attempt answer clock later now).state = .failed := by
  cases answer with
  | error text => exact .inl rfl
  | ok status =>
    unfold reconciled
    dsimp only
    split
    · exact .inr (.inl rfl)
    split
    · exact (state_awaited attempt status.failure clock later).imp_right .inr
    · split <;> exact .inl rfl

/-- The engine writes attempts as they are issued. -/
theorem Frame.Follows.issued (follows : frame.Follows copy)
    (hwritten : frame.written = some attempt) (hworking : copy.state.working = true) :
    (Call.updateAttempt attempt).Issued := by
  cases follows with
  | repair | submit | submitting | check => cases hwritten
  | persist =>
    cases hwritten
    exact .inl rfl
  | record himporting =>
    cases hwritten
    exact .inl ((state_submitted copy _ _).trans himporting)
  | @settle answer clock later now hrunning =>
    cases hwritten
    rcases state_reconciled copy answer clock later now with hstate | hstate | hstate
    · left
      rw [hstate]
      cases hcopy : copy.state <;> simp_all [State.working]
    · exact .inr (.inl hstate)
    · exact .inr (.inr (.inl hstate))
  | finish _ ends =>
    cases hwritten
    exact .inr (.inr ends)

/-- Once a copy is stored, the run goes on with what was stored. -/
theorem Frame.Follows.afterUpdate (follows : frame.Follows copy)
    (hwritten : frame.written = some attempt) {later : Frame}
    (hlater : frame.afterUpdate = some later) : later.Follows attempt := by
  cases follows with
  | repair | submit | submitting | check | settle | finish => cases hlater
  | persist =>
    cases hwritten
    cases hlater
    exact .submit rfl
  | record himporting =>
    cases hwritten
    cases hlater
    refine .check ?_
    rw [state_submitted, himporting]
    exact State.noConfusion

/-! ## Moves commit issued calls and keep frames current -/

/-- An attempt that can still be updated is under way. -/
theorem working_of_active {k : Nat} (law : store.Agreement)
    (hfind : store.attempts.find (id, k) = some attempt) (hactive : attempt.state.active = true) :
    attempt.state.working = true := by
  have hsome := law.owned id k (by rw [hfind]; rfl)
  obtain ⟨job, hjob⟩ := Option.isSome_iff_exists.mp hsome
  obtain ⟨n, agrees⟩ := law.agrees id job hjob
  obtain rfl := Table.key_of_find hjob
  exact (agrees.latest k attempt hfind hactive).2.1

/-- The number `Start` gives to an attempt is new. -/
theorem find_lastNumber_succ {job : Job} (law : store.Agreement)
    (hjob : store.jobs.find id = some job) :
    store.attempts.find (id, store.lastNumber id + 1) = none := by
  obtain ⟨n, agrees⟩ := law.agrees id job hjob
  obtain rfl := Table.key_of_find hjob
  rw [agrees.numbered.lastNumber_eq]
  by_contra hsome
  have hbound := (agrees.numbered (n + 1)).mp (Option.ne_none_iff_isSome.mp hsome)
  omega

theorem follows_afterLoad (attempt : Attempt) (now : Time) :
    (afterLoad attempt now).Follows attempt := by
  unfold afterLoad
  split
  · exact .finish (by assumption) (.inl rfl)
  · exact .check (by assumption)

theorem follows_afterRepair (hrunning : attempt.state = .running)
    (answer : Except RepairError PreparedImport) (now : Time) :
    (afterRepair attempt answer now).Follows attempt := by
  cases answer with
  | error failure =>
    refine .finish hrunning ?_
    split <;> simp
  | ok prepared => exact .persist hrunning

variable [JSONSerializer]

/-- A frame of the job `id` has no copy of an attempt yet, or one that is stored as it
was marshalled. -/
inductive Frame.Holds (id : JobID) (store : Store) : Frame → Prop
  | get : Holds id store .get
  | start {job : Job} : Holds id store (.start job)
  | load : Holds id store .load
  | follows {stored copy : Attempt} {frame : Frame}
      (found : store.attempts.find (id, stored.number) = some stored)
      (copied : copy.row = .ok stored) (follows : Follows copy frame) : Holds id store frame

/-- Only the attempts of the job matter to its frame. -/
theorem Frame.Holds.congr (holds : frame.Holds id store)
    (hattempts : ∀ k, store'.attempts.find (id, k) = store.attempts.find (id, k)) :
    frame.Holds id store' := by
  cases holds with
  | get => exact .get
  | start => exact .start
  | load => exact .load
  | follows found copied follows => exact .follows ((hattempts _).trans found) copied follows

/-- Writing what a copy became writes over the attempt the copy is stored as. -/
theorem overwrite_row (hcopied : copy.row = .ok stored)
    (hsame : Store.overwriteAttempt copy attempt = attempt) (hrow : attempt.row = .ok row) :
    Store.overwriteAttempt stored row = row := by
  obtain ⟨_, _, -, -, rfl⟩ := Attempt.row_eq_ok.mp hcopied
  obtain ⟨importRequest, importReceipt, -, -, rfl⟩ := Attempt.row_eq_ok.mp hrow
  exact congrArg (fun row : Attempt => { row with importRequest, importReceipt }) hsame

/-- Writing what a copy became stores it; the stored attempt was under way. -/
theorem attempts_of_updateAttempt (hfind : store.attempts.find (id, stored.number) = some stored)
    (hcopied : copy.row = .ok stored) (hsame : Store.overwriteAttempt copy attempt = attempt)
    (hcall : store.updateAttempt attempt = .ok store') :
    ∃ row, attempt.row = .ok row ∧ stored.state.active = true ∧ row.key = (id, stored.number) ∧
      store'.attempts = store.attempts.save row := by
  have hkey : attempt.key = (id, stored.number) := by
    have hkept : (Store.overwriteAttempt copy attempt).key = copy.key := rfl
    rw [← hsame, hkept, ← Attempt.key_row hcopied]
    exact Table.key_of_find hfind
  obtain ⟨previous, job, row, hprevious, hactive, hrow, -, rfl⟩ := Store.updateAttempt_ok hcall
  rw [hkey, hfind] at hprevious
  cases hprevious
  refine ⟨row, hrow, hactive, (Attempt.key_row hrow).trans hkey, ?_⟩
  rw [overwrite_row hcopied hsame hrow]

/-- What one move does to the store: nothing, or it creates the next attempt of
its job, or it writes the attempt of its frame. -/
inductive Effect (id : JobID) (store : Store) (frame : Option Frame) : Move → Store → Prop
  | none {move : Move} : Effect id store frame move store
  | start {job read : Job} {now : Time} {reported : Bool} {store' : Store}
      (frame_eq : frame = some (.start read))
      (call : store.start id now =
        .ok (store', Attempt.create job (store.lastNumber id + 1) now))
      (id_eq : job.id = id)
      (attempts : store'.attempts =
        store.attempts.save (Attempt.create job (store.lastNumber id + 1) now))
      (fresh : store.attempts.find (id, store.lastNumber id + 1) = none) :
      Effect id store frame (.commit now reported) store'
  | update {standing : Frame} {stored copy attempt row : Attempt} {now : Time} {reported : Bool}
      {store' : Store} (frame_eq : frame = some standing)
      (written : standing.written = some attempt)
      (call : store.updateAttempt attempt = .ok store')
      (found : store.attempts.find (id, stored.number) = some stored)
      (copied : copy.row = .ok stored) (follows : standing.Follows copy)
      (working : stored.state.working = true) (marshalled : attempt.row = .ok row)
      (key : row.key = (id, stored.number))
      (attempts : store'.attempts = store.attempts.save row) :
      Effect id store frame (.commit now reported) store'

section Moves

variable {id : JobID} {store store' : Store} {frame frame' : Option Frame} {move : Move}

variable {standing : Frame} {attempt : Attempt}

private theorem effect_of_update {now : Time} {reported : Bool} (law : store.Agreement)
    (holds : standing.Holds id store) (hwritten : standing.written = some attempt)
    (hcall : store.updateAttempt attempt = .ok store') :
    Effect id store (some standing) (.commit now reported) store' := by
  cases holds with
  | get | start | load => cases hwritten
  | follows found copied follows =>
    obtain ⟨row, hrow, hactive, hkey, hattempts⟩ :=
      attempts_of_updateAttempt found copied (follows.overwrite hwritten) hcall
    exact .update rfl hwritten hcall found copied follows (working_of_active law found hactive)
      hrow hkey hattempts

theorem Advance.effect (hadvance : Advance id store frame move store' frame')
    (law : store.Agreement) (holds : ∀ standing ∈ frame, standing.Holds id store) :
    Effect id store frame move store' := by
  cases hadvance with
  | run | got | loaded | repaired | submit | submitted | checked | stop => exact .none
  | started hcall =>
    obtain ⟨job, hjob, -, -, rfl, rfl⟩ := Store.start_ok hcall
    exact .start rfl hcall (Table.key_of_find hjob) rfl (find_lastNumber_succ law hjob)
  | updated hwritten hcall => exact effect_of_update law (holds _ rfl) hwritten hcall

/-- A move that changes the store commits one issued call. -/
theorem Effect.step (heffect : Effect id store frame move store') :
    store' = store ∨ ∃ call, call.writesAttempts = true ∧ store.Step call store' := by
  cases heffect with
  | none => exact .inl rfl
  | start frame_eq hcall =>
    exact .inr ⟨.start id _, rfl, trivial, map_eq_ok.mpr ⟨_, hcall, rfl⟩⟩
  | update frame_eq hwritten hcall found copied follows hworking =>
    rw [Attempt.state_row copied] at hworking
    exact .inr ⟨.updateAttempt _, rfl, follows.issued hwritten hworking, hcall⟩

/-- A move leaves the attempts of other jobs alone. -/
theorem Effect.find_of_ne (heffect : Effect id store frame move store') {other : JobID}
    (hne : other ≠ id) (k : Nat) :
    store'.attempts.find (other, k) = store.attempts.find (other, k) := by
  cases heffect with
  | none => rfl
  | start frame_eq hcall hid hattempts =>
    rw [hattempts, Table.find_save_of_ne]
    exact fun hkey => hne ((congrArg Prod.fst hkey).trans hid)
  | update frame_eq hwritten hcall found copied follows hworking hrow hkey hattempts =>
    rw [hattempts, Table.find_save_of_ne]
    rw [hkey]
    exact fun heq => hne (congrArg Prod.fst heq)

theorem holds_afterGet (job : Job) : ∀ standing ∈ afterGet job, standing.Holds id store := by
  intro standing hmem
  unfold afterGet at hmem
  split at hmem
  · cases hmem
    exact .start
  split at hmem
  · cases hmem
    exact .load
  · cases hmem

/-- After the commit of a frame, the store has what the frame wrote. -/
private theorem holds_of_update (holds : standing.Holds id store)
    (hwritten : standing.written = some attempt)
    (hcall : store.updateAttempt attempt = .ok store') {later : Frame}
    (hlater : standing.afterUpdate = some later) : later.Holds id store' := by
  cases holds with
  | get | start | load => cases hwritten
  | follows found copied follows =>
    obtain ⟨row, hrow, -, hkey, hattempts⟩ :=
      attempts_of_updateAttempt found copied (follows.overwrite hwritten) hcall
    obtain rfl : row.jobID = id := congrArg Prod.fst hkey
    have hfind : store'.attempts.find row.key = some row :=
      hattempts ▸ Table.find_save_self _ row
    exact .follows hfind hrow (follows.afterUpdate hwritten hlater)

/-- The frame after a move follows from the store after it. -/
theorem Advance.holds (hadvance : Advance id store frame move store' frame')
    (marshalled : store.Marshalled) (holds : ∀ standing ∈ frame, standing.Holds id store) :
    ∀ standing ∈ frame', standing.Holds id store' := by
  intro standing hmem
  cases hadvance with
  | run =>
    cases hmem
    exact .get
  | got => exact holds_afterGet _ standing hmem
  | @started _ _ reported _ attempt hcall =>
    -- the attempt that `Start` created is the one that the run goes on with
    cases reported with
    | false => cases hmem
    | true =>
      cases hmem
      obtain ⟨job, hjob, -, -, rfl, rfl⟩ := Store.start_ok hcall
      obtain rfl := Table.key_of_find hjob
      exact .follows (Table.find_save_self _ (Attempt.create job _ _)) (Attempt.row_create ..)
        (.repair rfl)
  | @loaded attempt now hlast =>
    -- rows are read as they were written
    cases hmem
    have hfound := Store.mem_attemptsOf.mp (List.argmax_mem hlast)
    exact .follows hfound (marshalled.attempt _ _ hfound) (follows_afterLoad attempt now)
  | @repaired job attempt answer now =>
    cases hmem
    have .follows found copied (.repair running) := holds _ rfl
    exact .follows found copied (follows_afterRepair running answer now)
  | submit =>
    cases hmem
    have .follows found copied (.submit importing) := holds _ rfl
    exact .follows found copied (.submitting importing)
  | submitted =>
    cases hmem
    have .follows found copied (.submitting importing) := holds _ rfl
    exact .follows found copied (.record importing)
  | checked =>
    cases hmem
    have .follows found copied (.check notRunning) := holds _ rfl
    exact .follows found copied (.settle notRunning)
  | updated hwritten hcall hafter =>
    rcases hafter with rfl | rfl
    · exact holds_of_update (holds _ rfl) hwritten hcall hmem
    · cases hmem
  | stop => cases hmem

end Moves

/-! ## Every state reached is sound -/

namespace Engine

/-- Jobs agree with attempts, and frames with the store. -/
structure Sound (engine : Engine) : Prop where
  agreement : engine.store.Agreement
  marshalled : engine.store.Marshalled
  holds : ∀ id, ∀ frame ∈ engine.frames id, frame.Holds id engine.store

variable {engine engine' : Engine} {event : EngineEvent}

theorem Sound.effect (sound : engine.Sound) {id : JobID} {move : Move} {store : Store}
    {frame : Option Frame}
    (hadvance : Advance id engine.store (engine.frames id) move store frame) :
    Effect id engine.store (engine.frames id) move store :=
  hadvance.effect sound.agreement (sound.holds id)

theorem Cases.sound (hcases : Cases engine event engine') (sound : engine.Sound) :
    engine'.Sound := by
  cases hcases with
  | @engine id move store frame hadvance =>
    have heffect := sound.effect hadvance
    refine ⟨?_, ?_, fun other standing hmem => ?_⟩
    · rcases heffect.step with rfl | ⟨call, -, hissued, hcall⟩
      · exact sound.agreement
      · exact sound.agreement.apply hissued hcall
    · rcases heffect.step with rfl | ⟨call, -, -, hcall⟩
      · exact sound.marshalled
      · exact sound.marshalled.apply hcall
    · change standing ∈ Function.update engine.frames id frame other at hmem
      by_cases hother : other = id
      · subst hother
        rw [Function.update_self] at hmem
        exact hadvance.holds sound.marshalled (sound.holds other) standing hmem
      · rw [Function.update_of_ne hother] at hmem
        exact (sound.holds other standing hmem).congr fun k => heffect.find_of_ne hother k
  | other hquiet hstep =>
    refine ⟨sound.agreement.apply hstep.1 hstep.2, sound.marshalled.apply hstep.2,
      fun id frame hmem => ?_⟩
    have hattempts := Store.attempts_of_quiet hquiet hstep.2
    exact (sound.holds id frame hmem).congr fun k => by rw [hattempts]
  | crash => exact ⟨sound.agreement, sound.marshalled, fun _ _ hmem => by cases hmem⟩

theorem sound_of_reaches {past : List (Engine × EngineEvent)}
    (hrun : Reaches Step init past engine) : engine.Sound :=
  Reaches.invariant (fun _ engine => engine.Sound) hrun
    ⟨Store.agreement_empty, Store.marshalled_empty, fun _ _ hmem => by cases hmem⟩
    fun _ sound hstep => (cases_of_step hstep).sound sound

/-- What a step does to one attempt: nothing, or it creates it, or it stores what
the frame of its job wrote. -/
theorem Cases.find (hcases : Cases engine event engine') (sound : engine.Sound) (id : JobID)
    (k : Nat) :
    engine'.store.attempts.find (id, k) = engine.store.attempts.find (id, k) ∨
    (engine.store.attempts.find (id, k) = none ∧
      ∃ job now, engine'.store.attempts.find (id, k) = some (Attempt.create job k now)) ∨
    ∃ stored copy frame attempt row, engine.store.attempts.find (id, k) = some stored ∧
      stored.state.working = true ∧ frame ∈ engine.frames id ∧ frame.written = some attempt ∧
      copy.row = .ok stored ∧ frame.Follows copy ∧ attempt.row = .ok row ∧
      engine'.store.attempts.find (id, k) = some row := by
  cases hcases with
  | @engine mover move store frame hadvance =>
    have heffect := sound.effect hadvance
    change store.attempts.find (id, k) = _ ∨ (_ ∧ ∃ job now, store.attempts.find (id, k) = _) ∨ _
    by_cases hid : id = mover
    · subst hid
      generalize hmove : move = moved at heffect
      cases heffect with
      | none => exact .inl rfl
      | @start job read now reported _ frame_eq hcall job_eq hattempts fresh =>
        rw [hattempts, Table.find_save]
        split_ifs with hkey
        · obtain rfl : k = engine.store.lastNumber id + 1 := congrArg Prod.snd hkey
          exact .inr (.inl ⟨fresh, job, now, rfl⟩)
        · exact .inl rfl
      | @update standing stored copy attempt row now reported _ frame_eq hwritten hcall found
          copied follows hworking hrow hkey hattempts =>
        change _ ∨ _ ∨ ∃ stored copy frame attempt row, _ ∧ _ ∧ _ ∧ _ ∧ _ ∧ _ ∧ _ ∧
          store.attempts.find (id, k) = _
        rw [hattempts, Table.find_save, hkey]
        split_ifs with heq
        · obtain rfl : k = stored.number := congrArg Prod.snd heq
          exact .inr (.inr ⟨stored, copy, standing, attempt, row, found, hworking, frame_eq,
            hwritten, copied, follows, hrow, rfl⟩)
        · exact .inl rfl
    · exact .inl (heffect.find_of_ne hid k)
  | other hquiet hstep => exact .inl (by rw [Store.attempts_of_quiet hquiet hstep.2])
  | crash => exact .inl rfl

end Engine

end NixConfig.MediaRepair.Repair
