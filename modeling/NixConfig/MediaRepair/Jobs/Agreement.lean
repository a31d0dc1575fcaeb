/-
# Jobs and attempts agree

A job's state and the state of its latest attempt are written by different
transactions, and most of those that write the job's state never look at an
attempt. They agree all the same: a job is running or importing exactly when
its latest attempt is, and no earlier attempt is. What carries the law is that
a working job has no pending action, so that the end of a removal, which checks
nothing but the pending action and the revision, cannot meet one.
-/

import NixConfig.MediaRepair.Jobs.Observation
import NixConfig.Semantics.Run
import Mathlib.Data.List.Perm.Basic
import Mathlib.Data.List.Range

namespace NixConfig.MediaRepair.Jobs

open Data Semantics

/-- The states of an attempt that is under way. -/
def State.working : State → Bool
  | .running | .importing => true
  | _ => false

/-- A call with arguments as the engine and the scheduler produce them: the
engine moves an attempt to `Importing` or ends it, and a planning answer leaves
the job observed, ready or blocked. Other calls are issued with any arguments. -/
def Call.Issued : Call → Prop
  | .updateAttempt attempt =>
    attempt.state = .importing ∨ attempt.state = .imported ∨ attempt.state = .failed ∨
      attempt.state = .blocked
  | .finishPlanning planned =>
    planned.state = .observed ∨ planned.state = .ready ∨ planned.state = .blocked
  | _ => True

instance (call : Call) : Decidable call.Issued := by
  unfold Call.Issued
  split <;> infer_instance

/-! ## Attempt numbers -/

namespace Store

variable {store store' : Store}

/-- The attempts of a job are numbered `1` to `n`. -/
def Numbered (store : Store) (id : JobID) (n : Nat) : Prop :=
  ∀ k, (store.attempts.find (id, k)).isSome ↔ 1 ≤ k ∧ k ≤ n

variable {id : JobID} {attempt : Attempt} {k n : Nat}

theorem mem_attemptsOf :
    attempt ∈ store.attemptsOf id ↔ store.attempts.find (id, attempt.number) = some attempt := by
  rw [attemptsOf, List.mem_filter, Table.mem_rows_iff]
  constructor
  · rintro ⟨hfind, hid⟩
    have hid : attempt.jobID = id := by simpa using hid
    rw [← hid]
    exact hfind
  · intro hfind
    have hid : attempt.jobID = id := congrArg Prod.fst (Table.key_of_find hfind)
    subst hid
    exact ⟨hfind, by simp⟩

theorem number_of_find (hfind : store.attempts.find (id, k) = some attempt) : attempt.number = k :=
  congrArg Prod.snd (Table.key_of_find hfind)

theorem mem_numbers :
    k ∈ (store.attemptsOf id).map Attempt.number ↔ (store.attempts.find (id, k)).isSome := by
  rw [List.mem_map, Option.isSome_iff_exists]
  constructor
  · rintro ⟨attempt, hmem, rfl⟩
    exact ⟨attempt, mem_attemptsOf.mp hmem⟩
  · rintro ⟨attempt, hfind⟩
    obtain rfl := number_of_find hfind
    exact ⟨attempt, mem_attemptsOf.mpr hfind, rfl⟩

theorem nodup_numbers (store : Store) (id : JobID) :
    ((store.attemptsOf id).map Attempt.number).Nodup := by
  have hrows : (store.attemptsOf id).Nodup :=
    (List.Nodup.of_map _ store.attempts.nodup).filter _
  refine hrows.map_on fun first hfirst second hsecond heq => ?_
  rw [mem_attemptsOf] at hfirst hsecond
  rw [heq, hsecond] at hfirst
  exact (Option.some.inj hfirst).symm

/-- Numbering from `1` to `n` fixes the list of numbers up to its order. -/
theorem Numbered.perm (numbered : store.Numbered id n) :
    ((store.attemptsOf id).map Attempt.number).Perm (List.range' 1 n) := by
  rw [List.perm_ext_iff_of_nodup (nodup_numbers store id) List.nodup_range']
  intro k
  rw [mem_numbers, numbered k, List.mem_range'_1]
  omega

/-- The number the next attempt follows is the last one in use. -/
theorem Numbered.lastNumber_eq (numbered : store.Numbered id n) :
    store.lastNumber id = n := by
  unfold lastNumber
  cases hlast : store.lastAttempt id with
  | none =>
    have hnone : store.attemptsOf id = [] := List.argmax_eq_none.mp hlast
    by_contra hne
    have hsome := (numbered n).mpr ⟨Nat.one_le_iff_ne_zero.mpr (Ne.symm hne), le_rfl⟩
    rw [← mem_numbers, hnone] at hsome
    cases hsome
  | some attempt =>
    have hmem : attempt ∈ store.attemptsOf id := List.argmax_mem hlast
    have hbound := (numbered attempt.number).mp
      (mem_numbers.mp (List.mem_map_of_mem hmem))
    have hn := (numbered n).mpr ⟨hbound.1.trans hbound.2, le_rfl⟩
    obtain ⟨top, htop, htopn⟩ := List.mem_map.mp (mem_numbers.mpr hn)
    have hle : top.number ≤ attempt.number := List.le_of_mem_argmax htop hlast
    exact le_antisymm hbound.2 (htopn ▸ hle)

/-- The latest attempt is the one with the last number. -/
theorem Numbered.lastAttempt_eq (numbered : store.Numbered id n) :
    store.lastAttempt id = store.attempts.find (id, n) := by
  cases hlast : store.lastAttempt id with
  | none =>
    have hzero := numbered.lastNumber_eq
    rw [lastNumber, hlast] at hzero
    cases hfind : store.attempts.find (id, n) with
    | none => rfl
    | some attempt =>
      have hbound := (numbered n).mp (by rw [hfind]; rfl)
      rw [← hzero] at hbound
      exact absurd hbound.1 (by simp)
  | some attempt =>
    have hn := numbered.lastNumber_eq
    rw [lastNumber, hlast] at hn
    have hmem : attempt ∈ store.attemptsOf id := List.argmax_mem hlast
    rw [mem_attemptsOf] at hmem
    have hnumber : attempt.number = n := hn
    exact (hnumber ▸ hmem).symm

end Store

/-! ## The law -/

/-- A job and its attempts, of which `n` is the last number. -/
structure Store.Agrees (store : Store) (job : Job) (n : Nat) : Prop where
  numbered : store.Numbered job.id n
  /-- An attempt that can still be updated is the last one, and the job is in
  its state. -/
  latest : ∀ k attempt, store.attempts.find (job.id, k) = some attempt →
    attempt.state.active = true → k = n ∧ attempt.state.working = true ∧
      job.state = attempt.state
  /-- A working job has no pending action. -/
  unasked : job.state.working = true → job.pendingAction = .none
  /-- A working job has an attempt in its state, at the job's plan. -/
  covered : job.state.working = true →
    ∃ attempt, store.attempts.find (job.id, n) = some attempt ∧ attempt.state = job.state ∧
      attempt.plan = job.plan

/-- Every attempt belongs to a job, and every job agrees with its attempts. -/
structure Store.Agreement (store : Store) : Prop where
  owned : ∀ id k, (store.attempts.find (id, k)).isSome → (store.jobs.find id).isSome
  agrees : ∀ id job, store.jobs.find id = some job → ∃ n, store.Agrees job n

theorem State.active_of_working {state : State} (hworking : state.working = true) :
    state.active = true := by
  cases state <;> simp_all [State.working, State.active]

theorem State.not_working_of_idle {state : State} (hidle : state.active = false) :
    state.working = false := by
  cases state <;> simp_all [State.working, State.active]

/-! ## Every call keeps the law -/

namespace Store

variable {store store' : Store}

theorem agreement_empty : Store.empty.Agreement where
  owned := fun _ _ hsome => by cases hsome
  agrees := fun _ _ hfind => by cases hfind

variable {job row : Job} {n : Nat} {previous : Attempt}

/-- A row that keeps its state and pending action, or is at rest before and
after, agrees with the attempts it agreed with. -/
theorem Agrees.of_quiet (agrees : store.Agrees job n) (hattempts : store'.attempts = store.attempts)
    (hid : row.id = job.id)
    (hquiet : (row.state = job.state ∧ row.pendingAction = job.pendingAction ∧
        row.plan = job.plan) ∨
      (job.state.working = false ∧ row.state.working = false)) : store'.Agrees row n := by
  have hnumbered : store'.Numbered row.id n := by
    intro k
    rw [hattempts, hid]
    exact agrees.numbered k
  rcases hquiet with ⟨hstate, hpending, hplan⟩ | ⟨hbefore, hafter⟩
  · refine ⟨hnumbered, ?_, ?_, ?_⟩
    · rw [hattempts, hid, hstate]
      exact agrees.latest
    · rw [hstate, hpending]
      exact agrees.unasked
    · rw [hattempts, hid, hstate, hplan]
      exact agrees.covered
  · refine ⟨hnumbered, ?_, ?_, ?_⟩
    · rw [hattempts, hid]
      intro k attempt hfind hactive
      obtain ⟨-, hworking, hstate⟩ := agrees.latest k attempt hfind hactive
      rw [hstate, hworking] at hbefore
      cases hbefore
    · intro hworking
      rw [hafter] at hworking
      cases hworking
    · intro hworking
      rw [hafter] at hworking
      cases hworking

/-- The attempts of a job are all that matters to its agreement. -/
theorem Agrees.congr (agrees : store.Agrees job n)
    (hattempts : ∀ k, store'.attempts.find (job.id, k) = store.attempts.find (job.id, k)) :
    store'.Agrees job n where
  numbered := fun k => by rw [hattempts]; exact agrees.numbered k
  latest := fun k attempt => by rw [hattempts]; exact agrees.latest k attempt
  unasked := agrees.unasked
  covered := by rw [hattempts]; exact agrees.covered

/-- A job without attempts that is at rest agrees with them. -/
theorem agrees_of_no_attempts (hnone : ∀ k, store.attempts.find (job.id, k) = none)
    (hrest : job.state.working = false) : store.Agrees job 0 where
  numbered := fun k => by
    rw [hnone]
    simp only [Option.isSome_none, Bool.false_eq_true, false_iff]
    omega
  latest := fun k attempt hfind => by rw [hnone] at hfind; cases hfind
  unasked := fun hworking => by rw [hrest] at hworking; cases hworking
  covered := fun hworking => by rw [hrest] at hworking; cases hworking

/-- `Start` adds the next attempt and moves the job with it. -/
theorem Agrees.start {at_ : Time} (agrees : store.Agrees job n) (hready : job.state = .ready)
    (hunasked : job.pendingAction = .none) (hattempts : store'.attempts =
      store.attempts.save (Attempt.create job (store.lastNumber job.id + 1) at_)) :
    store'.Agrees (startedJob job at_) (n + 1) := by
  rw [agrees.numbered.lastNumber_eq] at hattempts
  have hfind (k : Nat) : store'.attempts.find (job.id, k) =
      if k = n + 1 then some (Attempt.create job (n + 1) at_)
      else store.attempts.find (job.id, k) := by
    rw [hattempts, Table.find_save]
    simp [Attempt.key, Attempt.create]
  refine ⟨fun k => ?_, fun k attempt hk hactive => ?_, fun _ => hunasked, fun _ => ?_⟩
  · change (store'.attempts.find (job.id, k)).isSome ↔ _
    rw [hfind]
    split
    · simp only [Option.isSome_some, true_iff]
      omega
    · rw [agrees.numbered k]
      omega
  · change store'.attempts.find (job.id, k) = _ at hk
    rw [hfind] at hk
    split at hk
    · cases hk
      exact ⟨by assumption, rfl, rfl⟩
    · obtain ⟨-, hworking, hstate⟩ := agrees.latest k attempt hk hactive
      rw [← hstate, hready] at hworking
      cases hworking
  · refine ⟨Attempt.create job (n + 1) at_, ?_, rfl, rfl⟩
    change store'.attempts.find (job.id, n + 1) = _
    rw [hfind, if_pos rfl]

variable {attempt : Attempt} {id : JobID}

/-- `UpdateAttempt` moves the attempt that is under way and its job together. -/
theorem Agrees.updateAttempt (agrees : store.Agrees job n)
    (hissued : (Call.updateAttempt attempt).Issued) (hid : attempt.jobID = job.id)
    (hfound : store.attempts.find attempt.key = some previous)
    (hactive : previous.state.active = true) {saved : Attempt} (hsaved : saved.state = attempt.state)
    (hattempts : store'.attempts = store.attempts.save (overwriteAttempt previous saved)) :
    store'.Agrees (attemptedJob job attempt) n := by
  have hkey : previous.key = (job.id, attempt.number) := by
    rw [Table.key_of_find hfound, ← hid]
    rfl
  rw [show attempt.key = (job.id, attempt.number) by rw [← hid]; rfl] at hfound
  -- an active attempt is the latest one, and the job is in its state
  obtain ⟨rfl, hworking, hstate⟩ := agrees.latest _ previous hfound hactive
  have hplan : previous.plan = job.plan := by
    obtain ⟨last, hlast, -, hplan⟩ := agrees.covered (hstate ▸ hworking)
    rw [hfound] at hlast
    cases hlast
    exact hplan
  -- only the row of that number changes
  have hfind (k : Nat) : store'.attempts.find (job.id, k) =
      if k = attempt.number then some (overwriteAttempt previous saved)
      else store.attempts.find (job.id, k) := by
    rw [hattempts, Table.find_save, show (overwriteAttempt previous saved).key = previous.key
      from rfl, hkey]
    simp
  -- of the states that the engine writes, the active ones are Running and Importing
  have hends : attempt.state.active = true → attempt.state.working = true := by
    rcases hissued with h | h | h | h <;> rw [h] <;> simp [State.active, State.working]
  have hpending : job.pendingAction = .none := agrees.unasked (hstate ▸ hworking)
  refine ⟨fun k => ?_, fun k other hk hother => ?_, fun _ => hpending, fun _ => ?_⟩
  · change (store'.attempts.find (job.id, k)).isSome ↔ _
    rw [hfind]
    split_ifs with hk
    · subst hk
      rw [← agrees.numbered attempt.number, hfound]
      simp
    · exact agrees.numbered k
  · change store'.attempts.find (job.id, k) = _ at hk
    rw [hfind] at hk
    split_ifs at hk with hne
    · cases hk
      have hother : saved.state.active = true := hother
      exact ⟨by assumption, hsaved ▸ hends (hsaved ▸ hother), hsaved.symm⟩
    · exact absurd (agrees.latest k other hk hother).1 hne
  · refine ⟨overwriteAttempt previous saved, ?_, hsaved, hplan⟩
    change store'.attempts.find (job.id, attempt.number) = _
    rw [hfind, if_pos rfl]

/-- The job of an attempt that can still be updated is running or importing. -/
theorem Agreement.working (law : store.Agreement) (hjob : store.jobs.find job.id = some job)
    (hid : attempt.jobID = job.id) (hfound : store.attempts.find attempt.key = some previous)
    (hactive : previous.state.active = true) : job.state.working = true := by
  have hkey : attempt.key = (job.id, attempt.number) := by
    rw [← hid]
    rfl
  rw [hkey] at hfound
  obtain ⟨n, agrees⟩ := law.agrees job.id job hjob
  obtain ⟨-, hworking, hstate⟩ := agrees.latest _ previous hfound hactive
  rw [hstate]
  exact hworking

/-- A working job is executing its own plan. -/
theorem Agreement.plan_eq (law : store.Agreement) (hjob : store.jobs.find id = some job)
    (hworking : job.state.working = true) (hlast : store.lastAttempt id = some attempt) :
    attempt.plan = job.plan := by
  obtain ⟨n, agrees⟩ := law.agrees id job hjob
  obtain ⟨latest, hlatest, -, hplan⟩ := agrees.covered hworking
  obtain rfl := Table.key_of_find hjob
  rw [agrees.numbered.lastAttempt_eq, hlatest] at hlast
  cases hlast
  exact hplan

end Store

section Calls

variable [JSONSerializer]

/-- One committed call with arguments as they are issued. -/
def Store.Step (store : Store) (call : Call) (store' : Store) : Prop :=
  call.Issued ∧ store.Commits call store'

/-- Apart from `Start` and `UpdateAttempt`, a call leaves the state, the pending
action and the plan of a row alone unless no attempt of the job is under way,
before and after. -/
theorem Change.quiet {store : Store} {call : Call} {job row : Job}
    (change : Change store call job row) (hissued : call.Issued)
    (hcall : call.writesAttempts = false)
    (hunasked : job.state.working = true → job.pendingAction = .none) :
    (row.state = job.state ∧ row.pendingAction = job.pendingAction ∧ row.plan = job.plan) ∨
      (job.state.working = false ∧ row.state.working = false) := by
  have hplan := change.leaves.plan_eq
  cases change with
  | observe found =>
    rcases Store.state_observeJob store job _ with hsame | ⟨hidle, -, -, hobserved | hblocked⟩
    · by_cases hworking : job.state.working = true
      · exact .inl ⟨hsame, (Store.sameOwner_observeJob _ _).pendingAction,
          Store.plan_observeJob store _ (State.active_of_working hworking)⟩
      · exact .inr ⟨by simpa using hworking, by rw [hsame]; simpa using hworking⟩
    · exact .inr ⟨State.not_working_of_idle hidle, by rw [hobserved]; rfl⟩
    · exact .inr ⟨State.not_working_of_idle hidle, by rw [hblocked]; rfl⟩
  | setPlan written same source idle => exact .inr ⟨State.not_working_of_idle idle, rfl⟩
  | reconsider asks idle => exact .inr ⟨State.not_working_of_idle idle, rfl⟩
  | delete same idle => exact .inr ⟨State.not_working_of_idle idle, State.not_working_of_idle idle⟩
  | finishPlanning written same revision source idle =>
    refine .inr ⟨State.not_working_of_idle idle, ?_⟩
    rcases hissued with hstate | hstate | hstate <;> simp [Store.plannedJob, hstate, State.working]
  | start | updateAttempt => cases hcall
  | startRemoval same asked notRunning notImporting =>
    refine .inr ⟨?_, rfl⟩
    cases hstate : job.state <;> first | rfl | contradiction
  | finishRemoval same revision asked =>
    -- The pending action tells a removal from a job that is under way.
    have hidle : job.state.working = false := by
      by_contra hworking
      rw [hunasked (by simpa using hworking)] at asked
      cases asked
    refine .inr ⟨hidle, ?_⟩
    rcases Store.state_removalFinished job _ _ with hstate | hstate <;> rw [hstate] <;> rfl
  | follow same found =>
    obtain ⟨hpending, hsame | ⟨hremoved, hblocked⟩⟩ := Store.state_followJob job _
    · exact .inl ⟨hsame, hpending, hplan rfl⟩
    · exact .inr ⟨by rw [hremoved]; rfl, by rw [hblocked]; rfl⟩
  | drop same gone queued =>
    rcases Store.state_dropJob job _ with ⟨hpending, hsame⟩ | ⟨hidle, -, hremoved⟩
    · exact .inl ⟨hsame, hpending, hplan rfl⟩
    · exact .inr ⟨State.not_working_of_idle hidle, by rw [hremoved]; rfl⟩

namespace Store

variable {store store' : Store} {job row : Job} {n : Nat} {previous attempt : Attempt}
  {call : Call} {id : JobID}

private theorem agrees_of_quiet_call (law : store.Agreement) (hissued : call.Issued)
    (hcall : store.apply call = .ok store') (hwrites : call.writesAttempts = false)
    (hattempts : store'.attempts = store.attempts) (hrow : store'.jobs.find id = some row) :
    ∃ n, store'.Agrees row n := by
  rcases row_of_apply hcall hrow with hsame | ⟨observed, rfl, -, rfl, _, _, -, -, rfl⟩ |
    ⟨job, hjob, hchange⟩
  · obtain ⟨n, agrees⟩ := law.agrees id row hsame
    exact ⟨n, agrees.congr fun k => by rw [hattempts]⟩
  · -- A new identifier has no attempts, since attempts belong to jobs.
    refine ⟨0, agrees_of_no_attempts (fun k => ?_) rfl⟩
    rw [hattempts]
    by_contra hsome
    have hjob := law.owned store.nextID k (Option.ne_none_iff_isSome.mp hsome)
    rw [find_nextID] at hjob
    cases hjob
  · obtain ⟨n, agrees⟩ := law.agrees id job hjob
    exact ⟨n, agrees.of_quiet hattempts hchange.leaves.id
      (hchange.quiet hissued hwrites agrees.unasked)⟩

private theorem isSome_of_apply (hcall : store.apply call = .ok store')
    (hsome : (store.jobs.find id).isSome) : (store'.jobs.find id).isSome := by
  obtain ⟨job, hjob⟩ := Option.isSome_iff_exists.mp hsome
  obtain ⟨row, hrow, -⟩ := exists_row_of_apply hcall hjob
  rw [hrow]
  rfl

/-- A call that wrote an attempt and changed no row but that of its job. -/
private theorem Agreement.of_saved (law : store.Agreement) (hcall : store.apply call = .ok store')
    (hwrites : call.writesAttempts = true)
    (hattempts : store'.attempts = store.attempts.save attempt) (hid : attempt.jobID = job.id)
    (hrow : store'.jobs.find job.id = some row) (hagrees : store'.Agrees row n)
    (honly : ∀ other row, Change store call other row → other.id = job.id) :
    store'.Agreement := by
  refine ⟨fun id k hsome => ?_, fun id found hfind => ?_⟩
  · rw [hattempts, Table.find_save] at hsome
    split_ifs at hsome with hkey
    · obtain rfl : id = job.id := (congrArg Prod.fst hkey).trans hid
      rw [hrow]
      rfl
    · exact isSome_of_apply hcall (law.owned id k hsome)
  · by_cases hsame : id = job.id
    · subst hsame
      rw [hrow] at hfind
      cases hfind
      exact ⟨n, hagrees⟩
    rcases row_of_apply hcall hfind with hfound | ⟨_, rfl, -⟩ | ⟨other, hother, hchange⟩
    · obtain ⟨n, agrees⟩ := law.agrees id found hfound
      obtain rfl := Table.key_of_find hfound
      refine ⟨n, agrees.congr fun k => ?_⟩
      rw [hattempts, Table.find_save_of_ne]
      exact fun hkey => hsame ((congrArg Prod.fst hkey).trans hid)
    · cases hwrites
    · exact absurd ((Table.key_of_find hother).symm.trans (honly _ _ hchange)) hsame

/-- Every issued call keeps jobs and attempts in agreement. -/
theorem Agreement.apply (law : store.Agreement) (hissued : call.Issued)
    (hcall : store.apply call = .ok store') : store'.Agreement := by
  rcases (after_of_apply hcall).attempts with ⟨hwrites, hattempts⟩ |
    ⟨job, at_, rfl, hjob, hready, hunasked, hrow, hattempts⟩ |
    ⟨attempt, previous, job, saved, rfl, hfound, hactive, hsaved, hjob, hrow, hattempts⟩
  · refine ⟨fun id k hsome => ?_, fun id row hrow =>
      agrees_of_quiet_call law hissued hcall hwrites hattempts hrow⟩
    rw [hattempts] at hsome
    exact isSome_of_apply hcall (law.owned id k hsome)
  · obtain ⟨n, agrees⟩ := law.agrees _ job hjob
    refine law.of_saved hcall rfl hattempts rfl hrow (agrees.start hready hunasked hattempts) ?_
    intro other row hchange
    cases hchange with
    | start same => exact same.symm
    | reconsider asks => cases asks
  · obtain ⟨n, agrees⟩ := law.agrees _ job hjob
    have hid : job.id = attempt.jobID := Table.key_of_find hjob
    have hprevious : previous.key = attempt.key := Table.key_of_find hfound
    refine law.of_saved hcall rfl hattempts ((congrArg Prod.fst hprevious).trans hid.symm)
      (hid ▸ hrow) (agrees.updateAttempt hissued hid.symm hfound hactive
        (Attempt.state_row hsaved) hattempts) ?_
    intro other row hchange
    cases hchange with
    | updateAttempt same => exact same.symm.trans hid.symm
    | reconsider asks => cases asks

theorem agreement_of_reaches {past : List (Store × Call)}
    (hrun : Reaches Store.Step Store.empty past store) : store.Agreement :=
  Reaches.invariant (fun _ store => store.Agreement) hrun agreement_empty
    fun _ law hstep => law.apply hstep.1 hstep.2

/-- In every store that committed calls lead to, the attempts of a job are
numbered from one, only the last can be under way, and the job is running or
importing exactly when its last attempt is. -/
theorem job_state_agrees_with_attempts {past : List (Store × Call)}
    (hrun : Reaches Store.Step Store.empty past store) {id : JobID} {job : Job}
    (hfind : store.jobs.find id = some job) :
    ∃ n, ((store.attemptsOf id).map Attempt.number).Perm (List.range' 1 n) ∧
      (∀ attempt ∈ store.attemptsOf id, attempt.state.working = true → attempt.number = n) ∧
      ∀ state : State, state.working = true →
        (job.state = state ↔
          ∃ attempt ∈ store.attemptsOf id, attempt.number = n ∧ attempt.state = state) := by
  obtain ⟨n, agrees⟩ := (agreement_of_reaches hrun).agrees id job hfind
  obtain rfl := Table.key_of_find hfind
  refine ⟨n, agrees.numbered.perm, fun attempt hmem hworking => ?_, fun state hworking => ⟨?_, ?_⟩⟩
  · exact (agrees.latest _ attempt (mem_attemptsOf.mp hmem) (State.active_of_working hworking)).1
  · rintro rfl
    obtain ⟨attempt, hlast, hstate, -⟩ := agrees.covered hworking
    obtain rfl := number_of_find hlast
    exact ⟨attempt, mem_attemptsOf.mpr hlast, rfl, hstate⟩
  · rintro ⟨attempt, hmem, -, rfl⟩
    exact (agrees.latest _ attempt (mem_attemptsOf.mp hmem)
      (State.active_of_working hworking)).2.2

/-! ## Computed runs -/

/-- The store a call leads to, when it is issued and commits. -/
def nextIssued (store : Store) (call : Call) : Option Store :=
  if call.Issued then store.next call else none

theorem step_of_nextIssued (store : Store) (call : Call) (store' : Store)
    (hnext : store.nextIssued call = some store') : store.Step call store' := by
  unfold nextIssued at hnext
  split at hnext
  · exact ⟨by assumption, commits_of_next store call store' hnext⟩
  · cases hnext

end Store

end Calls

namespace Store

attribute [local instance] compactSerializer

/-- A job that was observed, planned and started. -/
def startedCalls : List Call :=
  [.observe (Job.zero .radarr), .setPlan 1 "" (ascii "1") "" 1, .start 1 2]

theorem job_state_agrees_with_attempts_started :
    ∃ past store job, execute nextIssued [] Store.empty startedCalls = some (past, store) ∧
      store.jobs.find 1 = some job ∧ job.state = .running ∧
      ∃ n, ((store.attemptsOf 1).map Attempt.number).Perm (List.range' 1 n) ∧
        (∀ attempt ∈ store.attemptsOf 1, attempt.state.working = true → attempt.number = n) ∧
        ∀ state : State, state.working = true →
          (job.state = state ↔
            ∃ attempt ∈ store.attemptsOf 1, attempt.number = n ∧ attempt.state = state) :=
  ⟨_, _, _, rfl, rfl, rfl,
    job_state_agrees_with_attempts (Reaches.execute step_of_nextIssued startedCalls .start rfl) rfl⟩

/-- `FinishPlanning` takes any state. -/
def plannedCalls : List Call :=
  [.observe (Job.zero .radarr), .finishPlanning { Job.zero .radarr with id := 1, state := .running }]

/-- A planning answer in a state that the scheduler never gives it leaves a running job
without an attempt. -/
theorem planned_running_without_attempt :
    ∃ past store job, Reaches Store.Commits Store.empty past store ∧
      past.map Prod.snd = plannedCalls.reverse ∧ store.jobs.find 1 = some job ∧
      job.state = .running ∧ store.attemptsOf 1 = [] :=
  ⟨_, _, _, Reaches.execute commits_of_next plannedCalls .start rfl, rfl, rfl, rfl, rfl⟩

end Store

end NixConfig.MediaRepair.Jobs
