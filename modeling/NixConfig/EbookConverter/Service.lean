/-
# The conversion service

Every few seconds the service looks at all the books of a library. A book that
has not changed for a while is converted, and one that fails too often is left
alone until it changes.

Each book is meant to fail for itself. What a conversion raises is caught and
counted against its book, as far as it is of the two kinds that are expected;
anything else ends the round, is not counted, and comes back in the next round
before the books behind it have had their turn.
-/

import Mathlib
import NixConfig.Data.Utf8
import NixConfig.Semantics.Run

namespace NixConfig.EbookConverter

open Data Semantics

/-! ## The state -/

structure FileFingerprint where
  device : Int
  inode : Int
  size : Nat
  mtimeNs : Int
  deriving DecidableEq

inductive Status
  | settling
  | converting
  | complete
  | failed
  | needsAttention
  /-- Any other text that a state file may hold. -/
  | other (text : String)
  deriving DecidableEq

structure JobState where
  status : Status
  fingerprint : FileFingerprint
  policyVersion : Option Int
  observedAt : Int
  updatedAt : Int
  attempts : Nat
  error : String
  destination : Option Text
  deriving DecidableEq

structure ServiceState where
  files : Text → Option JobState
  success : Nat
  failed : Nat
  lastSuccess : Option Int

def ServiceState.put (state : ServiceState) (path : Text) (job : JobState) : ServiceState :=
  { state with files := Function.update state.files path (some job) }

theorem ServiceState.files_put (state : ServiceState) (path other : Text) (job : JobState) :
    (state.put path job).files other = if other = path then some job else state.files other :=
  Function.update_apply ..

/-- `JOB_POLICY_VERSION` -/
def jobPolicyVersion : Int := 2

structure Config where
  settleSeconds : Int
  maxAttempts : Int

/-! ## One round -/

/-- What is raised. A `ConversionBusy` is an `EbookConverterError` of its own kind. -/
inductive Raised
  | busy
  | converterError (text : String)
  | osError (text : String)
  /-- Any other exception. -/
  | other
  deriving DecidableEq

/-- What looking at a source gives. -/
inductive Look
  | seen (fingerprint : FileFingerprint)
  /-- `FileNotFoundError`: the file has gone in the meantime. -/
  | gone
  /-- Any other exception. -/
  | raised
  deriving DecidableEq

/-- A source that is discovered, and what happens when it is looked at and converted. -/
structure Sighting where
  path : Text
  look : Look
  /-- Whether the state can be saved before the conversion. -/
  savedBefore : Bool
  conversion : Except Raised Text
  /-- After an error, whether the source is gone and the destination is there, if the two
  `exists` raise nothing. -/
  moved : Option Bool
  expectedDestination : Text
  /-- `validate_epub` of that destination. -/
  recheck : Except Raised Unit
  /-- Whether the state can be saved after the conversion. -/
  savedAfter : Bool
  finished : Int

/-- An `iteration` of the service. Discovery gives each path once. -/
structure Iteration where
  now : Int
  sightings : List Sighting
  nodup : (sightings.map Sighting.path).Nodup

/-- How an attempt at a conversion ended. -/
inductive Attempted
  | succeeded
  | busy
  | failed
  /-- An exception left the loop. -/
  | escaped
  deriving DecidableEq

/-- What the loop does about a source. -/
inductive Disposition
  | skip
  | escape
  | observe (fingerprint : FileFingerprint)
  | attempt (job : JobState)

def dispose (config : Config) (now : Int) (state : ServiceState) (sighting : Sighting) :
    Disposition :=
  match sighting.look with
  | .gone => .skip
  | .raised => .escape
  | .seen fingerprint =>
    match state.files sighting.path with
    | none => .observe fingerprint
    | some job =>
      if job.fingerprint ≠ fingerprint ∨ job.policyVersion ≠ some jobPolicyVersion then
        .observe fingerprint
      else if job.status = .needsAttention ∧ config.maxAttempts ≤ job.attempts then .skip
      else if now - job.observedAt < config.settleSeconds then .skip
      else .attempt job

/-- The handler of an error that is expected. -/
def fail (config : Config) (job : JobState) (sighting : Sighting) (text : String) : JobState :=
  { job with
    status := if config.maxAttempts ≤ (job.attempts + 1 : Nat) then .needsAttention else .failed
    attempts := job.attempts + 1
    updatedAt := sighting.finished
    error := text }

def complete (job : JobState) (sighting : Sighting) (destination : Text) : JobState :=
  { job with
    status := .complete, destination := some destination, updatedAt := sighting.finished, error := "" }

/-- The handlers of a conversion that raised something. -/
def handle (config : Config) (job : JobState) (sighting : Sighting) (raised : Raised) :
    JobState × Attempted :=
  match raised with
  | .busy => ({ job with status := .settling, updatedAt := sighting.finished }, .busy)
  | .other => (job, .escaped)
  | .converterError text | .osError text =>
    match sighting.moved with
    | some true =>
      match sighting.recheck with
      | .ok () => (complete job sighting sighting.expectedDestination, .succeeded)
      | .error .busy | .error (.converterError _) => (fail config job sighting text, .failed)
      | .error (.osError _) | .error .other => (job, .escaped)
    | some false => (fail config job sighting text, .failed)
    | none => (job, .escaped)

/-- The job after an attempt, and how it ended. -/
def convert (config : Config) (job : JobState) (sighting : Sighting) : JobState × Attempted :=
  match sighting.conversion with
  | .ok destination => (complete job sighting destination, .succeeded)
  | .error raised => handle config job sighting raised

/-- The totals of the state after an attempt. -/
def record (state : ServiceState) (sighting : Sighting) (result : Attempted) : ServiceState :=
  match sighting.conversion, result with
  | .ok _, _ => { state with success := state.success + 1, lastSuccess := some sighting.finished }
  | .error _, .failed => { state with failed := state.failed + 1 }
  | .error _, _ => state

structure Visit where
  state : ServiceState
  attempt : Option Attempted
  /-- An exception leaves the loop. -/
  escaped : Bool

/-- The body of the loop. -/
def visit (config : Config) (now : Int) (state : ServiceState) (sighting : Sighting) : Visit :=
  match dispose config now state sighting with
  | .skip => ⟨state, none, false⟩
  | .escape => ⟨state, none, true⟩
  | .observe fingerprint =>
    ⟨state.put sighting.path ⟨.settling, fingerprint, some jobPolicyVersion, now, now, 0, "", none⟩,
      none, false⟩
  | .attempt job =>
    let started := { job with status := .converting, updatedAt := now, error := "" }
    if sighting.savedBefore then
      let (ended, result) := convert config started sighting
      ⟨record (state.put sighting.path ended) sighting result, some result,
        result = .escaped || !sighting.savedAfter⟩
    else ⟨state.put sighting.path started, none, true⟩

/-- The loop: the state that it leaves and the attempts that it makes. -/
def visitAll (config : Config) (now : Int) :
    ServiceState → List Sighting → ServiceState × List (Text × Attempted)
  | state, [] => (state, [])
  | state, sighting :: rest =>
    let visited := visit config now state sighting
    let attempts := visited.attempt.toList.map fun result => (sighting.path, result)
    if visited.escaped then (visited.state, attempts)
    else
      let (after, others) := visitAll config now visited.state rest
      (after, attempts ++ others)

def iterate (config : Config) (state : ServiceState) (iteration : Iteration) :
    ServiceState × List (Text × Attempted) :=
  visitAll config iteration.now state iteration.sightings

/-- One round of `watch_command`, which goes on with the state whatever was raised. -/
def Step (config : Config) (state : ServiceState) (iteration : Iteration) (after : ServiceState) :
    Prop :=
  (iterate config state iteration).1 = after

/-! ## What is asked of the service -/

/-- A source is unchanged since it was first seen, settled, and not exhausted. -/
structure Due (config : Config) (now : Int) (state : ServiceState) (sighting : Sighting)
    (job : JobState) : Prop where
  known : state.files sighting.path = some job
  unchanged : sighting.look = .seen job.fingerprint ∧
    job.policyVersion = some jobPolicyVersion
  settled : config.settleSeconds ≤ now - job.observedAt
  notExhausted : ¬ (job.status = .needsAttention ∧ config.maxAttempts ≤ job.attempts)

/-- Nothing but the expected errors is raised, and the state can be saved. -/
structure Sighting.Contained (sighting : Sighting) : Prop where
  looked : sighting.look ≠ .raised
  saved : sighting.savedBefore = true ∧ sighting.savedAfter = true
  conversion : sighting.conversion ≠ .error .other
  moved : sighting.moved ≠ none
  recheck : sighting.moved = some true →
    sighting.recheck ≠ .error .other ∧ ∀ text, sighting.recheck ≠ .error (.osError text)

def Iteration.Contained (iteration : Iteration) : Prop :=
  ∀ sighting ∈ iteration.sightings, sighting.Contained

/-- An attempt that did not leave a converted book; a busy round is no attempt. -/
def Attempted.Unsuccessful (result : Attempted) : Prop := result = .failed ∨ result = .escaped

instance (result : Attempted) : Decidable result.Unsuccessful :=
  inferInstanceAs (Decidable (_ ∨ _))

/-- The unsuccessful attempts at a source. -/
def failuresOf (path : Text) (attempts : List (Text × Attempted)) : Nat :=
  attempts.countP fun entry => entry.1 = path ∧ entry.2.Unsuccessful

/-- The unsuccessful attempts at a source in a whole run. -/
def runFailures (config : Config) (path : Text) (past : List (ServiceState × Iteration)) : Nat :=
  (past.map fun entry => failuresOf path (iterate config entry.1 entry.2).2).sum

/-- The source has one fingerprint whenever it is seen. -/
def Steady (path : Text) (fingerprint : FileFingerprint) (iteration : Iteration) : Prop :=
  ∀ sighting ∈ iteration.sightings, sighting.path = path →
    ∀ seen, sighting.look = .seen seen → seen = fingerprint

/-! ## One source -/

variable {config : Config} {now : Int} {state : ServiceState} {sighting : Sighting}

variable {job : JobState} {sightings : List Sighting} {fingerprint : FileFingerprint}
  {failures : Nat}

/-- The sources that are attempted are those that are due. -/
theorem dispose_eq_attempt :
    dispose config now state sighting = .attempt job ↔ Due config now state sighting job := by
  constructor
  · intro hdispose
    unfold dispose at hdispose
    split at hdispose
    · cases hdispose
    · cases hdispose
    rename_i fingerprint hfingerprint
    split at hdispose
    · cases hdispose
    rename_i found hfound
    split at hdispose
    · cases hdispose
    rename_i hsame
    push Not at hsame
    split_ifs at hdispose with hleft hsettled
    cases hdispose
    exact ⟨hfound, ⟨by rw [hfingerprint, hsame.1], hsame.2⟩, by omega, hleft⟩
  · rintro ⟨hknown, ⟨hfingerprint, hversion⟩, hsettled, hleft⟩
    have hsettled' : ¬ now - job.observedAt < config.settleSeconds := by omega
    simp only [dispose, hfingerprint, hknown, hversion, ne_eq, not_true_eq_false, or_self, if_false,
      if_neg hleft, if_neg hsettled']

/-- A contained conversion does not escape. -/
theorem convert_contained (hcontained : sighting.Contained) (job : JobState) :
    (convert config job sighting).2 ≠ .escaped := by
  have hconversion := hcontained.conversion
  unfold convert
  split
  · simp
  rename_i raised hraised
  unfold handle
  split
  · simp
  · exact absurd hraised hconversion
  all_goals
    split
    · rename_i hmoved
      obtain ⟨hother, hos⟩ := hcontained.recheck hmoved
      split
      · simp
      · simp
      · simp
      · exact absurd ‹_› (hos _)
      · exact absurd ‹_› hother
    · simp
    · exact absurd ‹_› hcontained.moved

/-- A contained source does not end the loop when it is looked at. -/
theorem dispose_ne_escape (hcontained : sighting.Contained) :
    dispose config now state sighting ≠ .escape := by
  intro hescape
  unfold dispose at hescape
  split at hescape
  · cases hescape
  · exact hcontained.looked ‹_›
  · split at hescape
    · cases hescape
    · split_ifs at hescape

theorem visit_not_escaped (hcontained : sighting.Contained) :
    (visit config now state sighting).escaped = false := by
  unfold visit
  split
  · rfl
  · exact absurd ‹_› (dispose_ne_escape hcontained)
  · rfl
  · rw [if_pos hcontained.saved.1]
    simp [convert_contained hcontained, hcontained.saved.2]

theorem record_files (state : ServiceState) (sighting : Sighting) (result : Attempted) :
    (record state sighting result).files = state.files := by
  unfold record
  split
  · rfl
  · rfl
  · rfl

/-- Other sources are left as they are. -/
theorem visit_files_of_ne {path : Text} (hne : path ≠ sighting.path) :
    (visit config now state sighting).state.files path = state.files path := by
  unfold visit
  split
  · rfl
  · rfl
  · exact (ServiceState.files_put ..).trans (if_neg hne)
  · split
    · rw [record_files]
      exact (ServiceState.files_put ..).trans (if_neg hne)
    · exact (ServiceState.files_put ..).trans (if_neg hne)

/-- A source that is due is attempted, unless the state cannot be saved. -/
theorem visit_attempt_of_due (hdue : Due config now state sighting job)
    (hsaved : sighting.savedBefore = true) :
    ∃ result, (visit config now state sighting).attempt = some result := by
  unfold visit
  rw [dispose_eq_attempt.mpr hdue]
  simp only [hsaved, if_true]
  exact ⟨_, rfl⟩

/-! ## All sources -/

/-- If nothing escapes, every source that is due gets its attempt. -/
theorem visitAll_attempts (hnodup : (sightings.map Sighting.path).Nodup)
    (hcontained : ∀ sighting ∈ sightings, sighting.Contained) (hmem : sighting ∈ sightings)
    (hdue : Due config now state sighting job) :
    ∃ result, (sighting.path, result) ∈ (visitAll config now state sightings).2 := by
  induction sightings generalizing state with
  | nil => cases hmem
  | cons first rest ih =>
    rw [List.map_cons, List.nodup_cons] at hnodup
    rw [List.forall_mem_cons] at hcontained
    simp only [visitAll, visit_not_escaped hcontained.1, Bool.false_eq_true, if_false]
    rcases List.mem_cons.mp hmem with rfl | hmem
    · obtain ⟨result, hresult⟩ := visit_attempt_of_due hdue hcontained.1.saved.1
      refine ⟨result, List.mem_append_left _ ?_⟩
      simp [hresult]
    · -- The source before it is another one, and leaves its job alone.
      have hne : sighting.path ≠ first.path := fun heq =>
        hnodup.1 (heq ▸ List.mem_map_of_mem hmem)
      have hdue' : Due config now (visit config now state first).state sighting job :=
        { hdue with known := (visit_files_of_ne hne).trans hdue.known }
      obtain ⟨result, hresult⟩ := ih hnodup.2 hcontained.2 hmem hdue'
      exact ⟨result, List.mem_append_right _ hresult⟩

/-! ## How often a source fails -/

/-- Once a source has failed, its job counts its failures, and it is exhausted when they
are too many. -/
def Counted (config : Config) (path : Text) (fingerprint : FileFingerprint) (state : ServiceState)
    (failures : Nat) : Prop :=
  failures = 0 ∨ ∃ job, state.files path = some job ∧ job.fingerprint = fingerprint ∧
    job.policyVersion = some jobPolicyVersion ∧ failures ≤ job.attempts ∧
    (failures : Int) ≤ max 1 config.maxAttempts ∧
    (job.status = .needsAttention ∨ (job.attempts : Int) < config.maxAttempts)

theorem Counted.le {path : Text} (hcounted : Counted config path fingerprint state failures) :
    (failures : Int) ≤ max 1 config.maxAttempts := by
  rcases hcounted with rfl | ⟨job, -, -, -, -, hle, -⟩
  · omega
  · exact hle

/-- What an attempt changes about a job. -/
theorem convert_cases (config : Config) (hcontained : sighting.Contained) (job : JobState) :
    (convert config job sighting).1.fingerprint = job.fingerprint ∧
      (convert config job sighting).1.policyVersion = job.policyVersion ∧
      (((convert config job sighting).2 = .failed ∧
          (convert config job sighting).1.attempts = job.attempts + 1 ∧
          (convert config job sighting).1.status =
            if config.maxAttempts ≤ (job.attempts + 1 : Nat) then .needsAttention else .failed) ∨
        (¬ (convert config job sighting).2.Unsuccessful ∧
          (convert config job sighting).1.attempts = job.attempts)) := by
  have hconversion := hcontained.conversion
  unfold convert
  split
  · exact ⟨rfl, rfl, .inr ⟨by simp [Attempted.Unsuccessful], rfl⟩⟩
  rename_i raised hraised
  unfold handle
  split
  · exact ⟨rfl, rfl, .inr ⟨by simp [Attempted.Unsuccessful], rfl⟩⟩
  · exact absurd hraised hconversion
  all_goals
    split
    · rename_i hmoved
      obtain ⟨hother, hos⟩ := hcontained.recheck hmoved
      split
      · exact ⟨rfl, rfl, .inr ⟨by simp [Attempted.Unsuccessful], rfl⟩⟩
      · exact ⟨rfl, rfl, .inl ⟨rfl, rfl, rfl⟩⟩
      · exact ⟨rfl, rfl, .inl ⟨rfl, rfl, rfl⟩⟩
      · exact absurd ‹_› (hos _)
      · exact absurd ‹_› hother
    · exact ⟨rfl, rfl, .inl ⟨rfl, rfl, rfl⟩⟩
    · exact absurd ‹_› hcontained.moved

/-- The attempts that a visit adds to the list. -/
def Visit.log (visited : Visit) (path : Text) : List (Text × Attempted) :=
  visited.attempt.toList.map fun result => (path, result)

theorem failuresOf_log_of_ne {path : Text} (visited : Visit) (hne : path ≠ sighting.path) :
    failuresOf path (visited.log sighting.path) = 0 := by
  rw [failuresOf, List.countP_eq_zero]
  rintro entry hmem
  obtain ⟨result, -, rfl⟩ := List.mem_map.mp hmem
  simp [hne.symm]

/-- An attempt at a source that is due is counted if it fails, and not otherwise. -/
theorem Counted.attempt {ended : JobState} {result : Attempted} {escaped : Bool}
    (hcounted : Counted config sighting.path fingerprint state failures)
    (hdue : Due config now state sighting job)
    (hsteady : ∀ seen, sighting.look = .seen seen → seen = fingerprint)
    (hends : ended.fingerprint = job.fingerprint ∧ ended.policyVersion = job.policyVersion ∧
      ((result = .failed ∧ ended.attempts = job.attempts + 1 ∧
          ended.status =
            if config.maxAttempts ≤ (job.attempts + 1 : Nat) then .needsAttention else .failed) ∨
        (¬ result.Unsuccessful ∧ ended.attempts = job.attempts))) :
    Counted config sighting.path fingerprint
      (record (state.put sighting.path ended) sighting result)
      (failures + failuresOf sighting.path
        (Visit.log ⟨record (state.put sighting.path ended) sighting result, some result, escaped⟩
          sighting.path)) := by
  obtain ⟨hfingerprint, hversion, hends⟩ := hends
  have hjob : job.fingerprint = fingerprint := hsteady _ hdue.unchanged.1
  have hfiles : (record (state.put sighting.path ended) sighting result).files sighting.path =
      some ended := by
    rw [record_files, ServiceState.files_put, if_pos rfl]
  -- A source that has failed before and is due has attempts left.
  have hleft : failures = 0 ∨ (failures ≤ job.attempts ∧ (job.attempts : Int) < config.maxAttempts ∧
      (failures : Int) ≤ max 1 config.maxAttempts) := by
    rcases hcounted with hzero | ⟨known, hknown, -, -, hle, hmax, hstatus⟩
    · exact .inl hzero
    · cases hknown.symm.trans hdue.known
      refine .inr ⟨hle, ?_, hmax⟩
      rcases hstatus with hstatus | hless
      · have hnot := hdue.notExhausted
        rw [not_and] at hnot
        have := hnot hstatus
        omega
      · exact hless
  rcases hends with ⟨rfl, hattempts, hstatus⟩ | ⟨hsuccess, hattempts⟩
  · have hone : failuresOf sighting.path (Visit.log
        ⟨record (state.put sighting.path ended) sighting .failed, some .failed, escaped⟩
        sighting.path) = 1 := by
      simp [failuresOf, Visit.log, Attempted.Unsuccessful]
    rw [hone]
    refine .inr ⟨ended, hfiles, hfingerprint.trans hjob, hversion.trans hdue.unchanged.2, ?_, ?_, ?_⟩
    · omega
    · push_cast
      omega
    · rw [hstatus]
      split
      · exact .inl rfl
      · right
        rw [hattempts]
        omega
  · have hnone : failuresOf sighting.path (Visit.log
        ⟨record (state.put sighting.path ended) sighting result, some result, escaped⟩
        sighting.path) = 0 := by
      simp [failuresOf, Visit.log, hsuccess]
    rw [hnone, Nat.add_zero]
    rcases hleft with hzero | ⟨hle, hless, hmax⟩
    · exact .inl hzero
    · exact .inr ⟨ended, hfiles, hfingerprint.trans hjob, hversion.trans hdue.unchanged.2,
        by omega, hmax, .inr (by omega)⟩

/-- A visit counts what fails. -/
theorem Counted.visit (now : Int) {path : Text}
    (hcounted : Counted config path fingerprint state failures) (hcontained : sighting.Contained)
    (hsteady : sighting.path = path → ∀ seen, sighting.look = .seen seen → seen = fingerprint) :
    Counted config path fingerprint (visit config now state sighting).state
      (failures + failuresOf path ((visit config now state sighting).log sighting.path)) := by
  by_cases hpath : path = sighting.path
  swap
  · rw [failuresOf_log_of_ne _ hpath, Nat.add_zero, Counted, visit_files_of_ne hpath]
    exact hcounted
  subst hpath
  unfold EbookConverter.visit
  split
  · exact hcounted
  · exact hcounted
  · -- A source that is first seen, or seen with another fingerprint, has not failed yet.
    rename_i observed hobserved
    refine .inl ?_
    rcases hcounted with rfl | ⟨job, hknown, hfingerprint, hversion, -⟩
    · rfl
    · exfalso
      unfold dispose at hobserved
      split at hobserved
      · cases hobserved
      · cases hobserved
      · rename_i seen hseen
        obtain rfl := hsteady rfl seen hseen
        simp only [hknown, hfingerprint, hversion, ne_eq, not_true_eq_false, or_self,
          if_false] at hobserved
        split_ifs at hobserved
  · rename_i job hattempt
    have hdue := dispose_eq_attempt.mp hattempt
    have hends := convert_cases config hcontained
      { job with status := .converting, updatedAt := now, error := "" }
    rw [if_pos hcontained.saved.1]
    generalize convert config { job with status := .converting, updatedAt := now, error := "" }
      sighting = converted at hends
    obtain ⟨ended, result⟩ := converted
    exact hcounted.attempt hdue (hsteady rfl) hends

theorem Counted.visitAll (now : Int) {path : Text}
    (hcounted : Counted config path fingerprint state failures)
    (hcontained : ∀ sighting ∈ sightings, sighting.Contained)
    (hsteady : ∀ sighting ∈ sightings, sighting.path = path →
      ∀ seen, sighting.look = .seen seen → seen = fingerprint) :
    Counted config path fingerprint (visitAll config now state sightings).1
      (failures + failuresOf path (visitAll config now state sightings).2) := by
  induction sightings generalizing state failures with
  | nil => exact hcounted
  | cons first rest ih =>
    rw [List.forall_mem_cons] at hcontained hsteady
    have hvisit := ih (hcounted.visit now hcontained.1 hsteady.1) hcontained.2 hsteady.2
    simp only [EbookConverter.visitAll, visit_not_escaped hcontained.1, Bool.false_eq_true, if_false]
    rw [failuresOf, List.countP_append, ← Nat.add_assoc]
    exact hvisit

/-! ## Whole runs -/

/-- As long as nothing but the expected errors is raised, every source that is due gets
its attempt in every round, and a source that stays the same fails only so often. -/
theorem books_fail_alone {init : ServiceState} {past : List (ServiceState × Iteration)}
    (hrun : Reaches (Step config) init past state)
    (hcontained : ∀ entry ∈ past, entry.2.Contained) :
    (∀ entry ∈ past, ∀ sighting ∈ entry.2.sightings, ∀ job,
      Due config entry.2.now entry.1 sighting job →
      ∃ result, (sighting.path, result) ∈ (iterate config entry.1 entry.2).2) ∧
    ∀ path fingerprint, (∀ entry ∈ past, Steady path fingerprint entry.2) →
      (runFailures config path past : Int) ≤ max 1 config.maxAttempts := by
  constructor
  · intro entry hentry sighting hmem job hdue
    exact visitAll_attempts entry.2.nodup (hcontained entry hentry) hmem hdue
  · intro path fingerprint hsteady
    have hadmitted : ∀ entry ∈ past, entry.2.Contained ∧ Steady path fingerprint entry.2 :=
      fun entry hmem => ⟨hcontained entry hmem, hsteady entry hmem⟩
    have hcounted := hrun.invariant_of_admitted
      (fun _ iteration => iteration.Contained ∧ Steady path fingerprint iteration)
      (fun past state => Counted config path fingerprint state (runFailures config path past))
      hadmitted (.inl rfl) (fun {past state iteration after} _ hcounted hiteration hstep => by
        have hround := hcounted.visitAll iteration.now hiteration.1 hiteration.2
        rw [runFailures, List.map_cons, List.sum_cons, Nat.add_comm, ← hstep]
        exact hround)
    exact hcounted.le

/-! ### Two books -/

def twoBooksPrint : FileFingerprint := ⟨1, 2, 3, 4⟩

def twoBooksJob : JobState := ⟨.settling, twoBooksPrint, some 2, 0, 0, 0, "", none⟩

/-- Both books have settled. -/
def twoBooks : ServiceState :=
  ⟨fun path => if path = [1] ∨ path = [2] then some twoBooksJob else none, 0, 0, none⟩

def twoBooksConfig : Config := ⟨30, 1⟩

/-- A book whose conversion ends in some way. -/
def bookSighting (path : Text) (conversion : Except Raised Text) : Sighting :=
  ⟨path, .seen twoBooksPrint, true, conversion, some false, [], .ok (), true, 60⟩

theorem twoBooks_nodup (first second : Except Raised Text) :
    ([bookSighting [1] first, bookSighting [2] second].map Sighting.path).Nodup := by
  simp [bookSighting]

theorem contained_book {path : Text} {conversion : Except Raised Text}
    (hconversion : conversion ≠ .error .other) : (bookSighting path conversion).Contained where
  looked := by simp [bookSighting]
  saved := ⟨rfl, rfl⟩
  conversion := hconversion
  moved := by simp [bookSighting]
  recheck := by simp [bookSighting]

/-- A round in which the two books end in some way. -/
def twoBooksRound (first second : Except Raised Text) : Iteration :=
  ⟨60, [bookSighting [1] first, bookSighting [2] second], twoBooks_nodup first second⟩

theorem steady_twoBooks (first second : Except Raised Text) :
    Steady [1] twoBooksPrint (twoBooksRound first second) := by
  intro sighting hsighting _ seen hseen
  rcases List.mem_cons.mp hsighting with rfl | hsighting
  · exact (Look.seen.inj hseen).symm
  · rw [List.mem_singleton.mp hsighting] at hseen
    exact (Look.seen.inj hseen).symm

/-- The conversion of the first book fails. -/
def failingRound : Iteration := twoBooksRound (.error (.converterError "corrupt")) (.ok [3])

/-- Reading the first book raises an exception of another kind. -/
def escapingRound : Iteration := twoBooksRound (.error .other) (.ok [3])

/-- A book that fails does not keep the other one from its turn. -/
theorem failing_book_alone : ∃ past state, Reaches (Step twoBooksConfig) twoBooks past state ∧
    (∃ entry ∈ past, ∃ result, ([2], result) ∈ (iterate twoBooksConfig entry.1 entry.2).2) ∧
    runFailures twoBooksConfig [1] past = 1 ∧
    (runFailures twoBooksConfig [1] past : Int) ≤ max 1 twoBooksConfig.maxAttempts := by
  have hrun : Reaches (Step twoBooksConfig) twoBooks [(twoBooks, failingRound)]
      (iterate twoBooksConfig twoBooks failingRound).1 := .next .start rfl
  have hcontained : ∀ entry ∈ [(twoBooks, failingRound)], entry.2.Contained := by
    intro entry hmem sighting hsighting
    rw [List.mem_singleton.mp hmem] at hsighting
    rcases List.mem_cons.mp hsighting with rfl | hsighting
    · exact contained_book (by simp)
    · rw [List.mem_singleton.mp hsighting]
      exact contained_book (by simp)
  have hsteady : ∀ entry ∈ [(twoBooks, failingRound)], Steady [1] twoBooksPrint entry.2 := by
    intro entry hmem
    rw [List.mem_singleton.mp hmem]
    exact steady_twoBooks _ _
  obtain ⟨hattempts, hfailures⟩ := books_fail_alone hrun hcontained
  refine ⟨_, _, hrun, ⟨_, List.mem_cons_self, ?_⟩, by decide +kernel, hfailures [1] _ hsteady⟩
  exact hattempts _ List.mem_cons_self (bookSighting [2] (.ok [3]))
    (by simp [failingRound, twoBooksRound])
    twoBooksJob ⟨by decide +kernel, ⟨rfl, rfl⟩, by decide, by decide⟩

/-- An exception of another kind ends each round before the second book, and the first
book is tried again and again. -/
theorem escaping_book_starves_others : ∃ past state,
    Reaches (Step twoBooksConfig) twoBooks past state ∧
    (∀ entry ∈ past, (∃ sighting ∈ entry.2.sightings, ∃ job, sighting.path = [2] ∧
        Due twoBooksConfig entry.2.now entry.1 sighting job) ∧
      ∀ result, ([2], result) ∉ (iterate twoBooksConfig entry.1 entry.2).2) ∧
    (∀ entry ∈ past, Steady [1] twoBooksPrint entry.2) ∧
    ¬ (runFailures twoBooksConfig [1] past : Int) ≤ max 1 twoBooksConfig.maxAttempts := by
  let state := (iterate twoBooksConfig twoBooks escapingRound).1
  have hrun : Reaches (Step twoBooksConfig) twoBooks
      [(state, escapingRound), (twoBooks, escapingRound)]
      (iterate twoBooksConfig state escapingRound).1 := .next (.next .start rfl) rfl
  have hsteady : Steady [1] twoBooksPrint escapingRound := steady_twoBooks _ _
  have hstarves : ∀ found, found.files [2] = some twoBooksJob →
      (iterate twoBooksConfig found escapingRound).2 = [([1], .escaped)] →
      (∃ sighting ∈ escapingRound.sightings, ∃ job, sighting.path = [2] ∧
        Due twoBooksConfig escapingRound.now found sighting job) ∧
      ∀ result, ([2], result) ∉ (iterate twoBooksConfig found escapingRound).2 := by
    intro found hknown hattempts
    refine ⟨⟨bookSighting [2] (.ok [3]), by simp [escapingRound, twoBooksRound], twoBooksJob, rfl,
      hknown, ⟨rfl, rfl⟩, by decide, by decide⟩, fun result hmem => ?_⟩
    rw [hattempts] at hmem
    simp at hmem
  refine ⟨_, _, hrun, fun entry hmem => ?_, fun entry hmem => ?_, by decide +kernel⟩
  · rcases List.mem_cons.mp hmem with rfl | hmem
    · exact hstarves _ (by decide +kernel) (by decide +kernel)
    · rw [List.mem_singleton.mp hmem]
      exact hstarves _ (by decide +kernel) (by decide +kernel)
  · rcases List.mem_cons.mp hmem with rfl | hmem
    · exact hsteady
    · rw [List.mem_singleton.mp hmem]
      exact hsteady

end NixConfig.EbookConverter
