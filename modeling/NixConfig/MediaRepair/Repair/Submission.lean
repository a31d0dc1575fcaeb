/-
# Imports are submitted once

An import must never be submitted twice, and `Submit` may be lost without an
answer at any time. `Run` therefore stores its intent before it calls `Submit`,
and an attempt it finds in the store is only ever checked, never submitted.

What carries this across crashes is where the attempt of a frame comes from. A
run that has not read an attempt from the store got its attempt from its own
`Start`, under a number no attempt had before. The frame that submits is the
only one that can follow with that number, and it is left by submitting.
-/

import NixConfig.MediaRepair.Repair.Engine

namespace NixConfig.MediaRepair.Repair

open Data Semantics Jobs

/-! ## What a past shows -/

/-- One call of `Submit`, for an attempt of a job. -/
structure Submission where
  id : JobID
  number : Nat
  request : RawMessage
  deriving DecidableEq

/-- The attempt a submission is for. -/
def Submission.key (call : Submission) : JobID × Nat := (call.id, call.number)

/-- The call of `Submit` that an event makes. -/
def submission (entry : Engine × EngineEvent) : Option Submission :=
  match entry.2 with
  | .engine id .submit =>
    match entry.1.frames id with
    | some (.submit attempt) => some ⟨id, attempt.number, attempt.importRequest⟩
    | _ => none
  | _ => none

/-- All calls of `Submit`, over all runs. -/
def submissions (past : List (Engine × EngineEvent)) : List Submission :=
  past.filterMap submission

/-- `Run` is called for the job. -/
def EngineEvent.calls (id : JobID) : EngineEvent → Bool
  | .engine called .run => called == id
  | _ => false

/-- What happened since `Run` was last called for the job. -/
def sinceRun (id : JobID) (past : List (Engine × EngineEvent)) : List (Engine × EngineEvent) :=
  past.takeWhile fun entry => !entry.2.calls id

/-- The run of the job reads an attempt from the store. -/
def Loads (id : JobID) (entry : Engine × EngineEvent) : Prop :=
  ∃ now, entry.2 = .engine id (.loaded now)

/-- `Start` creates the attempt `k` of the job and says so. -/
def Creates (id : JobID) (k : Nat) (entry : Engine × EngineEvent) : Prop :=
  ∃ job now store attempt, entry.2 = .engine id (.commit now true) ∧
    entry.1.frames id = some (.start job) ∧ entry.1.store.start id now = .ok (store, attempt) ∧
    attempt.number = k

section Past

variable {past : List (Engine × EngineEvent)} {engine : Engine} {event : EngineEvent}

theorem submissions_cons_of_ne (hne : ∀ id, event ≠ .engine id .submit) :
    submissions ((engine, event) :: past) = submissions past := by
  refine List.filterMap_cons_none ?_
  unfold submission
  split
  · rename_i id hevent
    exact absurd hevent (hne id)
  · rfl

theorem sinceRun_cons_run (id : JobID) : sinceRun id ((engine, .engine id .run) :: past) = [] := by
  simp [sinceRun, EngineEvent.calls]

theorem sinceRun_cons_of_ne {id : JobID} (hne : event ≠ .engine id .run) :
    sinceRun id ((engine, event) :: past) = (engine, event) :: sinceRun id past := by
  have hcalls : event.calls id = false := by
    unfold EngineEvent.calls
    split
    · simpa using fun heq => hne (by rw [heq])
    · rfl
  simp [sinceRun, hcalls]

end Past

/-! ## Where the attempt of a frame comes from -/

/-- The frames before a run has read an attempt from the store or submitted its
own. -/
def Frame.unsubmitted : Frame → Bool
  | .get | .start _ | .repair _ _ | .persist _ | .submit _ => true
  | _ => false

/-- The number of the attempt a run created and has not submitted. -/
def Frame.own : Frame → Option Nat
  | .repair _ attempt | .persist attempt | .submit attempt => some attempt.number
  | _ => none

/-- A frame of the job that can still submit has not loaded an attempt; the one
it has was created by this run and was not submitted. -/
structure Frame.Fresh (id : JobID) (past : List (Engine × EngineEvent)) (frame : Frame) : Prop where
  unloaded : frame.unsubmitted = true → ∀ entry ∈ sinceRun id past, ¬ Loads id entry
  created : ∀ k, frame.own = some k → ∃ entry ∈ sinceRun id past, Creates id k entry
  pending : ∀ k, frame.own = some k → (id, k) ∉ (submissions past).map Submission.key

namespace Frame.Fresh

variable {id : JobID} {past : List (Engine × EngineEvent)} {engine : Engine} {frame : Frame}

/-- Nothing is asked of a run that can no longer submit. -/
theorem of_spent (hspent : frame.unsubmitted = false) : frame.Fresh id past := by
  have hnone : frame.own = none := by
    cases frame <;> first | rfl | cases hspent
  refine ⟨fun hfresh => ?_, fun k hown => ?_, fun k hown => ?_⟩
  · rw [hspent] at hfresh
    cases hfresh
  · rw [hnone] at hown
    cases hown
  · rw [hnone] at hown
    cases hown

/-- An event that neither loads nor submits takes the attempt along. -/
theorem cons {event : EngineEvent} {frame' : Frame} (fresh : frame.Fresh id past)
    (hrun : event ≠ .engine id .run) (hloaded : ∀ now, event ≠ .engine id (.loaded now))
    (hsubmit : event ≠ .engine id .submit)
    (hfrom : frame'.unsubmitted = true → frame.unsubmitted = true)
    (hown : ∀ k, frame'.own = some k → frame.own = some k) :
    frame'.Fresh id ((engine, event) :: past) := by
  have hsince : sinceRun id ((engine, event) :: past) = (engine, event) :: sinceRun id past :=
    sinceRun_cons_of_ne hrun
  refine ⟨fun hfresh entry hmem => ?_, fun k hk => ?_, fun k hk hmem => ?_⟩
  · rw [hsince] at hmem
    rcases List.mem_cons.mp hmem with rfl | hmem
    · exact fun ⟨now, hloads⟩ => hloaded now hloads
    · exact fresh.unloaded (hfrom hfresh) entry hmem
  · obtain ⟨entry, hmem, hcreates⟩ := fresh.created k (hown k hk)
    rw [hsince]
    exact ⟨entry, List.mem_cons_of_mem _ hmem, hcreates⟩
  · obtain ⟨call, hcall, hkey⟩ := List.mem_map.mp hmem
    rw [submissions, List.filterMap_cons] at hcall
    split at hcall
    · exact fresh.pending k (hown k hk) (List.mem_map.mpr ⟨call, hcall, hkey⟩)
    · rename_i made hmade
      rcases List.mem_cons.mp hcall with rfl | hcall
      · -- the event is a submission of another job
        unfold submission at hmade
        split at hmade
        · rename_i submitter hevent
          split at hmade
          · cases hmade
            obtain rfl : submitter = id := congrArg Prod.fst hkey
            exact hsubmit hevent
          · cases hmade
        · cases hmade
      · exact fresh.pending k (hown k hk) (List.mem_map.mpr ⟨call, hcall, hkey⟩)

/-- Events of other jobs and other components do not matter. -/
theorem other {event : EngineEvent} (fresh : frame.Fresh id past)
    (hother : ∀ move, event ≠ .engine id move) : frame.Fresh id ((engine, event) :: past) :=
  fresh.cons (hother _) (fun _ => hother _) (hother _) (fun h => h) fun _ h => h

end Frame.Fresh

/-! ## Every step keeps frames fresh -/

section Steps

variable {id : JobID} {past : List (Engine × EngineEvent)} {engine : Engine}

theorem fresh_get : Frame.get.Fresh id ((engine, .engine id .run) :: past) := by
  refine ⟨fun _ entry hmem => ?_, fun _ hown => (by cases hown), fun _ hown => (by cases hown)⟩
  rw [sinceRun_cons_run] at hmem
  cases hmem

/-- The attempt `Start` created was not submitted: its number is new, and what
was submitted is in the store. -/
theorem fresh_repair {read job : Job} {now : Time} {store : Store}
    (fresh : (Frame.start read).Fresh id past)
    (hstored : ∀ call ∈ submissions past, (engine.store.attempts.find call.key).isSome)
    (hframe : engine.frames id = some (.start read))
    (hcall : engine.store.start id now =
      .ok (store, Attempt.create job (engine.store.lastNumber id + 1) now))
    (hnew : engine.store.attempts.find (id, engine.store.lastNumber id + 1) = none) :
    (Frame.repair read (Attempt.create job (engine.store.lastNumber id + 1) now)).Fresh id
      ((engine, .engine id (.commit now true)) :: past) := by
  have hsince : sinceRun id ((engine, .engine id (.commit now true)) :: past) =
      (engine, .engine id (.commit now true)) :: sinceRun id past :=
    sinceRun_cons_of_ne fun heq => by cases heq
  refine ⟨fun _ entry hmem => ?_, fun k hown => ?_, fun k hown hmem => ?_⟩
  · rw [hsince] at hmem
    rcases List.mem_cons.mp hmem with rfl | hmem
    · rintro ⟨later, hloads⟩
      cases hloads
    · exact fresh.unloaded rfl entry hmem
  · cases hown
    rw [hsince]
    exact ⟨_, List.mem_cons_self, read, now, store, _, rfl, hframe, hcall, rfl⟩
  · cases hown
    rw [submissions_cons_of_ne fun other heq => by cases heq] at hmem
    obtain ⟨call, hmem, hkey⟩ := List.mem_map.mp hmem
    have hsome : (engine.store.attempts.find (id, engine.store.lastNumber id + 1)).isSome :=
      hkey ▸ hstored call hmem
    rw [hnew] at hsome
    cases hsome

end Steps

/-- No attempt was submitted twice, what was submitted is in the store, and
frames that can still submit are fresh. -/
structure Engine.Once (past : List (Engine × EngineEvent)) (engine : Engine) : Prop where
  nodup : ((submissions past).map Submission.key).Nodup
  stored : ∀ call ∈ submissions past, (engine.store.attempts.find call.key).isSome
  fresh : ∀ id, ∀ frame ∈ engine.frames id, frame.Fresh id past

namespace Engine

variable [JSONSerializer]

variable {past : List (Engine × EngineEvent)} {engine engine' : Engine} {event : EngineEvent}

/-- Attempts are never removed. -/
theorem Cases.isSome_find (hcases : Cases engine event engine') (sound : engine.Sound)
    {key : JobID × Nat} (hsome : (engine.store.attempts.find key).isSome) :
    (engine'.store.attempts.find key).isSome := by
  rcases hcases.find sound key.1 key.2 with hsame | ⟨-, job, now, hcreated⟩ |
    ⟨_, _, _, _, row, -, -, -, -, -, -, -, hafter⟩
  · rw [hsame]
    exact hsome
  · rw [hcreated]
    rfl
  · rw [hafter]
    rfl

theorem fresh_of_advance {id : JobID} {move : Move} {store : Store} {frame : Option Frame}
    (hadvance : Advance id engine.store (engine.frames id) move store frame)
    (sound : engine.Sound) (once : Once past engine) :
    ∀ standing ∈ frame, standing.Fresh id ((engine, .engine id move) :: past) := by
  intro standing hmem
  have hfresh := once.fresh id
  have heffect := sound.effect hadvance
  generalize hframe : engine.frames id = before at hadvance hfresh heffect
  cases hadvance with
  | run =>
    cases hmem
    exact fresh_get
  | got =>
    refine (hfresh _ rfl).cons (by simp) (by simp) (by simp) (fun _ => rfl) fun k hown => ?_
    -- neither of the frames after `Get` has an attempt
    unfold afterGet at hmem
    split at hmem
    · cases hmem
      cases hown
    split at hmem
    · cases hmem
      cases hown
    · cases hmem
  | @started read now reported store attempt hcall =>
    cases reported with
    | false => cases hmem
    | true =>
      cases hmem
      obtain ⟨job, hjob, -, -, rfl, -⟩ := Store.start_ok hcall
      exact fresh_repair (hfresh _ rfl) once.stored hframe hcall
        (find_lastNumber_succ sound.agreement hjob)
  | @loaded attempt now hlast =>
    cases hmem
    refine .of_spent ?_
    unfold afterLoad
    split <;> rfl
  | @repaired job attempt answer now =>
    cases hmem
    refine (hfresh _ rfl).cons (by simp) (by simp) (by simp) (fun _ => rfl) fun k hown => ?_
    cases answer with
    | error failure => cases hown
    | ok prepared => exact hown
  | @updated written _ _ _ _ _ _ _ hafter =>
    rcases hafter with rfl | rfl
    · cases written <;> cases hmem
      · exact (hfresh _ rfl).cons (by simp) (by simp) (by simp) (fun _ => rfl) fun k hown => hown
      · exact .of_spent rfl
    · cases hmem
  | submit | submitted | checked =>
    cases hmem
    exact .of_spent rfl
  | stop => cases hmem

/-- A submission is of an attempt that its run created and that is stored, marshalled, as
it is submitted. -/
theorem submission_of_frame {id : JobID} {attempt : Attempt} (sound : engine.Sound)
    (hframe : engine.frames id = some (.submit attempt)) :
    ∃ stored, engine.store.attempts.find (id, attempt.number) = some stored ∧
      stored.state = .importing ∧ attempt.importRequest.column = .ok stored.importRequest := by
  have .follows found copied (.submit importing) := sound.holds id _ hframe
  obtain ⟨request, receipt, hrequest, -, rfl⟩ := Attempt.row_eq_ok.mp copied
  exact ⟨_, found, importing, hrequest⟩

theorem frame_of_submit {id : JobID} (hstep : engine.Step (.engine id .submit) engine') :
    ∃ attempt, engine.frames id = some (.submit attempt) := by
  have .engine hadvance := cases_of_step hstep
  generalize engine.frames id = before at hadvance
  have .submit := hadvance
  exact ⟨_, rfl⟩

theorem once_of_reaches (hrun : Reaches Step init past engine) : Once past engine := by
  refine Reaches.invariant Once hrun ⟨List.nodup_nil, fun _ hmem => (by cases hmem),
    fun _ _ hmem => (by cases hmem)⟩ ?_
  intro past engine event engine' hrun once hstep
  have sound := sound_of_reaches hrun
  have hcases := cases_of_step hstep
  -- attempts are never deleted
  have hsubmitted : ∀ call ∈ submissions past, (engine'.store.attempts.find call.key).isSome :=
    fun call hmem => hcases.isSome_find sound (once.stored call hmem)
  -- A frame that still has its submission before it has made none since `Run` was called; the
  -- other frames are not touched by the event.
  have hfresh : ∀ id, ∀ frame ∈ engine'.frames id, frame.Fresh id ((engine, event) :: past) := by
    intro other standing hmem
    cases hcases with
    | @engine id move store frame hadvance =>
      change standing ∈ Function.update engine.frames id frame other at hmem
      by_cases hother : other = id
      · subst hother
        rw [Function.update_self] at hmem
        exact fresh_of_advance hadvance sound once standing hmem
      · rw [Function.update_of_ne hother] at hmem
        exact (once.fresh other standing hmem).other fun move heq => hother (by cases heq; rfl)
    | other => exact (once.fresh other standing hmem).other fun move heq => (by cases heq)
    | crash => cases hmem
  by_cases hevent : ∃ id, event = .engine id .submit
  · obtain ⟨id, rfl⟩ := hevent
    obtain ⟨attempt, hframe⟩ := frame_of_submit hstep
    -- the number of the attempt is not among the submissions so far
    have hpending := (once.fresh id _ hframe).pending attempt.number rfl
    obtain ⟨stored, hfound, -⟩ := submission_of_frame sound hframe
    have hmade : submissions ((engine, .engine id .submit) :: past) =
        ⟨id, attempt.number, attempt.importRequest⟩ :: submissions past := by
      refine List.filterMap_cons_some ?_
      simp only [submission, hframe]
    refine ⟨?_, fun call hmem => ?_, hfresh⟩
    · rw [hmade]
      exact List.nodup_cons.mpr ⟨hpending, once.nodup⟩
    · rw [hmade] at hmem
      rcases List.mem_cons.mp hmem with rfl | hmem
      · exact hcases.isSome_find sound (Option.isSome_iff_exists.mpr ⟨stored, hfound⟩)
      · exact hsubmitted call hmem
  · have hmade : submissions ((engine, event) :: past) = submissions past :=
      submissions_cons_of_ne fun id heq => hevent ⟨id, heq⟩
    exact ⟨by rw [hmade]; exact once.nodup, by rw [hmade]; exact hsubmitted, hfresh⟩

/-- Over every run, with crashes, lost answers and any behaviour of the adapter,
`Submit` is called at most once for an attempt. Whenever it is called, the
attempt is stored as importing with the request that is submitted, as the column
marshals it; since `Run` was called, `Start` created the attempt and no attempt was
read from the store. -/
theorem submit_at_most_once (hrun : Reaches Step init past engine) :
    ((submissions past).map Submission.key).Nodup ∧
      ∀ later found id earlier, past = later ++ (found, .engine id .submit) :: earlier →
        ∃ call stored, submission (found, .engine id .submit) = some call ∧ call.id = id ∧
          found.store.attempts.find (id, call.number) = some stored ∧
          stored.state = .importing ∧ call.request.column = .ok stored.importRequest ∧
          (∃ entry ∈ sinceRun id earlier, Creates id call.number entry) ∧
          ∀ entry ∈ sinceRun id earlier, ¬ Loads id entry := by
  refine ⟨(once_of_reaches hrun).nodup, ?_⟩
  rintro later found id earlier rfl
  obtain ⟨hearlier, after, hstep⟩ := hrun.split
  obtain ⟨attempt, hframe⟩ := frame_of_submit hstep
  have hfresh := (once_of_reaches hearlier).fresh id _ hframe
  obtain ⟨stored, hfound, himporting, hrequest⟩ :=
    submission_of_frame (sound_of_reaches hearlier) hframe
  refine ⟨⟨id, attempt.number, attempt.importRequest⟩, stored, ?_, rfl, hfound, himporting,
    hrequest, hfresh.created _ rfl, hfresh.unloaded rfl⟩
  simp only [submission, hframe]

end Engine

namespace Engine

attribute [local instance] compactSerializer

/-- An import request with a blank in it. -/
def spacedRequest : RawMessage := ascii "\x7b\"id\": 1\x7d"

/-- A run that loses the answer of `Submit` in a crash, and the run after it. -/
def interruptedEvents : List EngineEvent :=
  [.other (.observe (Job.zero .radarr)), .other (.setPlan 1 "" (ascii "1") "" 1),
    .engine 1 .run, .engine 1 .got, .engine 1 (.commit 2 true),
    .engine 1 (.repaired (.ok ⟨"out", spacedRequest, 3⟩) 4), .engine 1 (.commit 4 true),
    .engine 1 .submit, .crash,
    .engine 1 .run, .engine 1 .got, .engine 1 (.loaded 5),
    .engine 1 (.checked (.error "offline") 6 6 6), .engine 1 (.commit 6 true)]

theorem submit_at_most_once_interrupted :
    ∃ past engine, execute next [] init interruptedEvents = some (past, engine) ∧
      submissions past = [⟨1, 1, spacedRequest⟩] ∧
      ((submissions past).map Submission.key).Nodup :=
  ⟨_, _, rfl, rfl, (submit_at_most_once
    (Reaches.execute (fun _ _ _ hnext => hnext) interruptedEvents .start rfl)).1⟩

/-- What is stored of the request is not what is submitted. -/
theorem submitted_request_compacted :
    ∃ later found earlier engine call stored,
      Reaches Step init (later ++ (found, .engine 1 .submit) :: earlier) engine ∧
      submission (found, .engine 1 .submit) = some call ∧
      found.store.attempts.find (1, call.number) = some stored ∧
      call.request = spacedRequest ∧ stored.importRequest = ascii "\x7b\"id\":1\x7d" ∧
      stored.importRequest ≠ call.request :=
  ⟨[_, _, _, _, _, _], _, _, _, _, _,
    Reaches.execute (fun _ _ _ hnext => hnext) interruptedEvents .start rfl, rfl, rfl, rfl, rfl,
    by decide⟩

end Engine

end NixConfig.MediaRepair.Repair
