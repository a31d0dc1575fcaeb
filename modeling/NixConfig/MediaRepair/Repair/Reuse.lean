/-
# A planned input is not planned twice

Once a planning answer decided an input at an operator revision, the job is
never again waiting to be planned for that input at that revision, however
often the observed input moves away and comes back. While only failed attempts
are on record, a job that waits for a plan continues with the attempt count and
the retry time of the last of them.

The history is keyed by fingerprint and revision, so the argument follows the
key: the copy an answer was computed from has the input of the row it is stored
on, because both have the same source fingerprint; and a copy is read only
while its input is undecided.
-/

import NixConfig.MediaRepair.Repair.Planning

namespace NixConfig.MediaRepair.Repair

open Data Semantics Jobs

namespace Planner

variable {planner planner' : Planner} {past : List (Planner × PlannerEvent)}
  {event : PlannerEvent} {id : JobID}

/-- The observations of a job carry planning fingerprints, and the source
fingerprint determines the planning fingerprint. -/
structure Consistent (id : JobID) (past : List (Planner × PlannerEvent)) : Prop where
  carried : ∀ observed ∈ evidences id past, observed.planningFingerprint ≠ ""
  determined : ∀ first ∈ evidences id past, ∀ second ∈ evidences id past,
    first.sourceFingerprint = second.sourceFingerprint →
      first.planningFingerprint = second.planningFingerprint

theorem Consistent.tail {entry : Planner × PlannerEvent}
    (consistent : Consistent id (entry :: past)) : Consistent id past where
  carried := fun observed hmem =>
    consistent.carried observed (mem_evidences_of_cons entry hmem)
  determined := fun first hfirst second hsecond =>
    consistent.determined first (mem_evidences_of_cons entry hfirst) second
      (mem_evidences_of_cons entry hsecond)

/-- The two fingerprints of a job were observed together. -/
def ObservedInput (id : JobID) (past : List (Planner × PlannerEvent)) (job : Job) : Prop :=
  ∃ observed ∈ evidences id past, job.sourceFingerprint = observed.sourceFingerprint ∧
    job.planningFingerprint = observed.planningFingerprint

theorem ObservedInput.cons {job : Job} (hinput : ObservedInput id past job)
    (entry : Planner × PlannerEvent) : ObservedInput id (entry :: past) job := by
  obtain ⟨observed, hmem, hfingerprints⟩ := hinput
  exact ⟨observed, mem_evidences_of_cons entry hmem, hfingerprints⟩

theorem ObservedInput.congr {job row : Job} (hinput : ObservedInput id past job)
    (hsource : row.sourceFingerprint = job.sourceFingerprint)
    (hplanning : row.planningFingerprint = job.planningFingerprint) :
    ObservedInput id past row := by
  obtain ⟨observed, hmem, hobserved⟩ := hinput
  exact ⟨observed, hmem, hsource.trans hobserved.1, hplanning.trans hobserved.2⟩

theorem ObservedInput.named {job : Job} (hinput : ObservedInput id past job)
    (consistent : Consistent id past) : job.planningFingerprint ≠ "" := by
  obtain ⟨observed, hmem, -, hfingerprint⟩ := hinput
  rw [hfingerprint]
  exact consistent.carried observed hmem

/-- With consistent observations, equal sources have equal planning inputs. -/
theorem ObservedInput.eq_of_source {first second : Job} (hfirst : ObservedInput id past first)
    (hsecond : ObservedInput id past second) (consistent : Consistent id past)
    (hsource : first.sourceFingerprint = second.sourceFingerprint) :
    first.planningFingerprint = second.planningFingerprint := by
  obtain ⟨one, hone, honeSource, honeInput⟩ := hfirst
  obtain ⟨two, htwo, htwoSource, htwoInput⟩ := hsecond
  rw [honeInput, htwoInput]
  exact consistent.determined one hone two htwo (by rw [← honeSource, hsource, htwoSource])

/-! ## What is remembered about one job -/

/-- What ties the row of a job, the outstanding copy and the planning history
to the answers stored so far. -/
structure Remembers (id : JobID) (past : List (Planner × PlannerEvent)) (planner : Planner) :
    Prop where
  /-- Evidence stands with the fingerprints it was observed with. -/
  observed : ∀ job, planner.store.jobs.find id = some job → job.evidence ≠ none →
    ObservedInput id past job
  /-- A copy was read from a row with an observed input, while that was undecided. -/
  copied : ∀ copy, planner.outstanding id = some copy →
    ObservedInput id past copy ∧
      (∃ job, planner.store.jobs.find id = some job ∧ ObservedInput id past job) ∧
      ∀ answer ∈ storedAnswers id copy.planningFingerprint copy.revision past,
        answer.state = .observed
  /-- Answers are stored on rows with observed inputs, at revisions up to the current. -/
  bounded : ∀ fingerprint revision, storedAnswers id fingerprint revision past ≠ [] →
    ∃ job, planner.store.jobs.find id = some job ∧ ObservedInput id past job ∧
      revision ≤ job.revision
  /-- The history has the last answer, or a complete result in its place. -/
  recorded : ∀ fingerprint revision answer,
    (storedAnswers id fingerprint revision past).head? = some answer →
      ∃ result, planner.store.planningResults.find (id, fingerprint, revision) = some result ∧
        (result.complete = true ∨
          result.attempts = answer.planningAttempts ∧ result.retryAt = answer.retryAt)
  /-- A decision stays on record as complete. -/
  decided : ∀ fingerprint revision, ∀ answer ∈ storedAnswers id fingerprint revision past,
    answer.state ≠ .observed →
      ∃ result, planner.store.planningResults.find (id, fingerprint, revision) = some result ∧
        result.complete = true
  /-- A row that waits to be planned has an undecided input, and the retry state
  of the last answer. -/
  waiting : ∀ job, planner.store.jobs.find id = some job → job.state = .observed →
    (∀ answer ∈ storedAnswers id job.planningFingerprint job.revision past,
      answer.state = .observed) ∧
    ∀ answer, (storedAnswers id job.planningFingerprint job.revision past).head? = some answer →
      job.planningAttempts = answer.planningAttempts ∧ job.retryAt = answer.retryAt

theorem remembers_init : Remembers id [] init where
  observed := fun _ hfind => by cases hfind
  copied := fun _ hheld => by cases hheld
  bounded := fun _ _ hne => absurd rfl hne
  recorded := fun _ _ _ hhead => by cases hhead
  decided := fun _ _ _ hmem => by cases hmem
  waiting := fun _ hfind => by cases hfind

/-- An event other than an answer for the job stores no answer for it. -/
theorem storedAnswers_cons_of_none (hnone : ∀ fingerprint revision,
      planner.storedAnswer id fingerprint revision event = none)
    (fingerprint : String) (revision : Nat) :
    storedAnswers id fingerprint revision ((planner, event) :: past) =
      storedAnswers id fingerprint revision past :=
  List.filterMap_cons_none (hnone fingerprint revision)

namespace Remembers

/-- Where answers are on record, the row has a fingerprint. -/
theorem named (law : Remembers id past planner) (consistent : Consistent id past)
    {fingerprint : String} {revision : Nat}
    (hanswers : storedAnswers id fingerprint revision past ≠ []) :
    ∃ job, planner.store.jobs.find id = some job ∧ job.planningFingerprint ≠ "" ∧
      revision ≤ job.revision := by
  obtain ⟨job, hjob, hinput, hrevision⟩ := law.bounded _ _ hanswers
  exact ⟨job, hjob, hinput.named consistent, hrevision⟩

/-- An event that changes neither the row of the job nor its history, and
outstanding copies only by giving them up or by reading the row, keeps what is
remembered. -/
private theorem of_quiet (law : Remembers id past planner)
    (hanswers : ∀ fingerprint revision,
      storedAnswers id fingerprint revision ((planner, event) :: past) =
        storedAnswers id fingerprint revision past)
    (hrow : planner'.store.jobs.find id = planner.store.jobs.find id)
    (hresults : ∀ fingerprint revision,
      planner'.store.planningResults.find (id, fingerprint, revision) =
        planner.store.planningResults.find (id, fingerprint, revision))
    (hcopies : ∀ copy, planner'.outstanding id = some copy →
      planner.outstanding id = some copy ∨
        planner.store.jobs.find id = some copy ∧ copy.state = .observed ∧
          copy.evidence.len ≠ 0) :
    Remembers id ((planner, event) :: past) planner' := by
  refine ⟨fun job hjob hevidence => ?_, fun copy hheld => ?_, ?_, ?_, ?_, ?_⟩
  · exact (law.observed job (hrow ▸ hjob) hevidence).cons _
  · rw [hanswers, hrow]
    rcases hcopies copy hheld with hearlier | ⟨hread, hstate, hlen⟩
    · obtain ⟨hinput, ⟨job, hjob, hobserved⟩, hundecided⟩ := law.copied copy hearlier
      exact ⟨hinput.cons _, ⟨job, hjob, hobserved.cons _⟩, hundecided⟩
    · have hevidence : copy.evidence ≠ none := fun hnone => hlen (by rw [hnone]; rfl)
      have hinput := (law.observed copy hread hevidence).cons (planner, event)
      exact ⟨hinput, ⟨copy, hread, hinput⟩, (law.waiting copy hread hstate).1⟩
  · intro fingerprint revision
    rw [hanswers, hrow]
    intro hne
    obtain ⟨job, hjob, hobserved, hrevision⟩ := law.bounded fingerprint revision hne
    exact ⟨job, hjob, hobserved.cons _, hrevision⟩
  · intro fingerprint revision answer
    rw [hanswers, hresults]
    exact law.recorded fingerprint revision answer
  · intro fingerprint revision answer
    rw [hanswers, hresults]
    exact law.decided fingerprint revision answer
  · intro job
    rw [hanswers, hrow]
    exact law.waiting job

section Steps

variable [JSONSerializer]

/-- A call gives a row the fingerprints of an observation, or leaves it those it has. -/
private theorem input_of_call {call : Call} {store : Store}
    (consistent : Consistent id ((planner, .call call) :: past))
    (hcall : planner.store.Commits call store) {row : Job}
    (hrow : store.jobs.find id = some row) :
    ObservedInput id ((planner, .call call) :: past) row ∨
    (planner.store.jobs.find id = none ∧ row.evidence = none) ∨
    ∃ job, planner.store.jobs.find id = some job ∧ (row.evidence ≠ none → job.evidence ≠ none) ∧
      row.sourceFingerprint = job.sourceFingerprint ∧
      (job.planningFingerprint ≠ "" → row.planningFingerprint = job.planningFingerprint) := by
  rcases Store.row_of_apply hcall hrow with
    hsame | ⟨observed, rfl, hnew, rfl, evidence, _, hstored, -, rfl⟩ | ⟨job, hjob, hchange⟩
  · exact .inr (.inr ⟨row, hsame, fun h => h, rfl, fun _ => rfl⟩)
  · by_cases hcarries : observed.evidence = none
    · rw [hcarries, RawMessage.column_none] at hstored
      cases hstored
      exact .inr (.inl ⟨Store.find_nextID _, rfl⟩)
    · exact .inl ⟨observed, mem_evidences_observe hcarries (Store.observedID_of_new hnew), rfl, rfl⟩
  · by_cases hobserve : ∃ observed, call = .observe observed
    · obtain ⟨observed, rfl⟩ := hobserve
      cases hchange with
      | observe found stored =>
        obtain rfl := Table.key_of_find hjob
        have hnew (hcarries : observed.evidence ≠ none) :
            observed ∈ evidences job.id ((planner, .call (.observe observed)) :: past) :=
          mem_evidences_observe hcarries (Store.observedID_of_found found)
        rcases Store.input_observeJob planner.store job observed
          (fun hcarries => consistent.carried observed (hnew hcarries)) with
          ⟨hkept, hsource, hinput⟩ | ⟨hcarries, hsource, hinput⟩
        · refine .inr (.inr ⟨job, hjob, fun hevidence hnone => hevidence ?_, hsource, hinput⟩)
          -- what was read as NULL is written as NULL
          rw [hkept, hnone, RawMessage.column_none] at stored
          exact (Except.ok.inj stored).symm
        · exact .inl ⟨observed, hnew hcarries, hsource, hinput⟩
      | reconsider asks => cases asks
    · have hinput := hchange.leaves.sameInput fun observed h => hobserve ⟨observed, h⟩
      exact .inr (.inr ⟨job, hjob, fun h => hinput.evidence ▸ h, hinput.sourceFingerprint,
        fun _ => hinput.planningFingerprint⟩)

/-- A call leaves the evidence of a row with fingerprints observed together. -/
private theorem observed_of_call (law : Remembers id past planner) {call : Call} {store : Store}
    (consistent : Consistent id ((planner, .call call) :: past))
    (hcall : planner.store.Commits call store) {row : Job}
    (hrow : store.jobs.find id = some row) (hevidence : row.evidence ≠ none) :
    ObservedInput id ((planner, .call call) :: past) row := by
  rcases input_of_call consistent hcall hrow with hinput | ⟨-, hnone⟩ |
    ⟨job, hjob, hhad, hsource, hplanning⟩
  · exact hinput
  · exact absurd hnone hevidence
  · have hinput := law.observed job hjob (hhad hevidence)
    exact (hinput.cons _).congr hsource (hplanning (hinput.named consistent.tail))

/-- A row with an observed input stays, with one and at least its revision. -/
private theorem stays_of_call {call : Call} {store : Store}
    (consistent : Consistent id ((planner, .call call) :: past))
    (hcall : planner.store.Commits call store) {job : Job}
    (hjob : planner.store.jobs.find id = some job) (hinput : ObservedInput id past job) :
    ∃ row, store.jobs.find id = some row ∧
      ObservedInput id ((planner, .call call) :: past) row ∧ job.revision ≤ row.revision := by
  obtain ⟨row, hrow, hcases⟩ := Store.exists_row_of_apply hcall hjob
  refine ⟨row, hrow, ?_, ?_⟩
  · rcases input_of_call consistent hcall hrow with hobserved | ⟨hnone, -⟩ |
      ⟨found, hfound, -, hsource, hplanning⟩
    · exact hobserved
    · cases hjob.symm.trans hnone
    · cases hjob.symm.trans hfound
      exact (hinput.cons _).congr hsource (hplanning (hinput.named consistent.tail))
  · rcases hcases with rfl | hchange
    · exact le_rfl
    · exact hchange.leaves.revision_le

/-- A call that is not a planning answer keeps what is remembered. -/
theorem call (law : Remembers id past planner) {call : Call} {store : Store}
    (consistent : Consistent id ((planner, .call call) :: past))
    (hother : ∀ job, call ≠ .finishPlanning job) (hstep : planner.store.Step call store) :
    Remembers id ((planner, .call call) :: past) { planner with store := store } := by
  obtain ⟨hissued, hcall⟩ := hstep
  have hsame : ∀ fingerprint revision,
      storedAnswers id fingerprint revision ((planner, .call call) :: past) =
        storedAnswers id fingerprint revision past :=
    storedAnswers_cons_of_none fun _ _ => rfl
  -- A result is kept, or replaced by a complete one.
  have hkeeps {fingerprint : String} {revision : Nat} {answer : Job}
      (hmem : answer ∈ storedAnswers id fingerprint revision past) {p : PlanningResult → Prop}
      (hcomplete : ∀ result, result.complete = true → p result) (hbefore : ∃ result,
        planner.store.planningResults.find (id, fingerprint, revision) = some result ∧ p result) :
      ∃ result, store.planningResults.find (id, fingerprint, revision) = some result ∧
        p result := by
    obtain ⟨result, hresult, hp⟩ := hbefore
    obtain ⟨job, hjob, hnamed, -⟩ := law.named consistent.tail (List.ne_nil_of_mem hmem)
    rcases Store.result_of_apply hcall hother hjob hnamed fingerprint revision with
      hkept | ⟨complete, hfound, hflag⟩
    · exact ⟨result, hkept.trans hresult, hp⟩
    · exact ⟨complete, hfound, hcomplete complete hflag⟩
  have recorded (fingerprint : String) (revision : Nat) (answer : Job)
      (hhead : (storedAnswers id fingerprint revision past).head? = some answer) :=
    hkeeps (List.mem_of_mem_head? hhead) (fun _ => .inl) (law.recorded _ _ _ hhead)
  have decided (fingerprint : String) (revision : Nat) (answer : Job)
      (hmem : answer ∈ storedAnswers id fingerprint revision past)
      (hstate : answer.state ≠ .observed) :=
    hkeeps hmem (fun _ h => h) (law.decided _ _ _ hmem hstate)
  refine ⟨fun row hrow hevidence => law.observed_of_call consistent hcall hrow hevidence,
    fun copy hheld => ?_, fun fingerprint revision hanswers => ?_, ?_, ?_,
    fun row hrow hstate => ?_⟩
  · obtain ⟨hinput, ⟨job, hjob, hobserved⟩, hundecided⟩ := law.copied copy hheld
    obtain ⟨row, hrow, hkept, -⟩ := stays_of_call consistent hcall hjob hobserved
    rw [hsame]
    exact ⟨hinput.cons _, ⟨row, hrow, hkept⟩, hundecided⟩
  · rw [hsame] at hanswers
    obtain ⟨job, hjob, hobserved, hrevision⟩ := law.bounded _ _ hanswers
    obtain ⟨row, hrow, hkept, hlater⟩ := stays_of_call consistent hcall hjob hobserved
    exact ⟨row, hrow, hkept, hrevision.trans hlater⟩
  · intro fingerprint revision answer hhead
    exact recorded _ _ _ (hsame _ _ ▸ hhead)
  · intro fingerprint revision answer hmem
    exact decided _ _ _ (hsame _ _ ▸ hmem)
  · rw [hsame]
    -- Without answers for its input there is nothing to say about the row.
    by_cases hanswers : storedAnswers id row.planningFingerprint row.revision past = []
    · rw [hanswers]
      exact ⟨fun _ hmem => (by cases hmem), fun _ hhead => (by cases hhead)⟩
    obtain ⟨job, hjob, hnamed, hrevision⟩ := law.named consistent.tail hanswers
    have hupdate : ∀ attempt, call = .updateAttempt attempt → attempt.state ≠ .observed := by
      rintro attempt rfl hobserved
      rcases hissued with h | h | h | h <;> rw [hobserved] at h <;> cases h
    rcases Store.observed_of_apply hcall hupdate hother hjob hnamed hrow hstate with
      ⟨hbefore, hinput, hsameRevision, hattempts, hretry⟩ | hlater | ⟨hinput, htaken⟩
    · rw [hinput, hsameRevision, hattempts, hretry]
      exact law.waiting job hjob hbefore
    · exact absurd hrevision (Nat.not_le_of_lt hlater)
    · -- A reopened row takes up the record, which therefore is not complete.
      have hincomplete {result : PlanningResult}
          (hresult : store.planningResults.find
            (id, row.planningFingerprint, row.revision) = some result) :
          result.complete = false ∧ row.planningAttempts = result.attempts ∧
            row.retryAt = result.retryAt := by
        cases htaken with
        | fresh none => exact absurd (none result hresult) hinput
        | retry some unfinished _ _ attempts retryAt =>
          rw [hresult] at some
          cases some
          exact ⟨unfinished, attempts, retryAt⟩
        | decided some complete state =>
          rw [state] at hstate
          cases hstate
      refine ⟨fun answer hmem => ?_, fun answer hhead => ?_⟩
      · by_contra hdecided
        obtain ⟨result, hresult, hflag⟩ := decided _ _ _ hmem hdecided
        rw [(hincomplete hresult).1] at hflag
        cases hflag
      · obtain ⟨result, hresult, hlast⟩ := recorded _ _ _ hhead
        obtain ⟨hunfinished, hattempts, hretry⟩ := hincomplete hresult
        rcases hlast with hflag | ⟨hsameAttempts, hsameRetry⟩
        · rw [hunfinished] at hflag
          cases hflag
        · exact ⟨hattempts.trans hsameAttempts, hretry.trans hsameRetry⟩

/-- The answer for the outstanding copy is stored under the copy's own input,
and becomes the last answer for it. -/
private theorem answer (law : Remembers id past planner) {copy : Job}
    {reply : Except String Decision} {at_ : Time} {store : Store} (hid : copy.id = id)
    (consistent : Consistent id ((planner, .answer id reply at_) :: past))
    (hheld : planner.outstanding id = some copy)
    (hcall : planner.store.Commits (.finishPlanning (planned copy reply at_)) store) :
    Remembers id ((planner, .answer id reply at_) :: past)
      ⟨store, Function.update planner.outstanding id none⟩ := by
  obtain ⟨hcopyInput, ⟨job, hjob, hinput⟩, hundecided⟩ := law.copied copy hheld
  obtain ⟨found, plan, -, hfind, hrevision, hsource, -, -, -, rfl⟩ :=
    Store.finishPlanning_ok hcall
  rw [planned_id, hid, hjob] at hfind
  cases hfind
  rw [planned_revision] at hrevision
  rw [planned_sourceFingerprint] at hsource
  have hnamed : job.planningFingerprint ≠ "" := hinput.named consistent.tail
  -- Equal sources have equal inputs, so the copy was read under the row's key.
  have hsame : copy.planningFingerprint = job.planningFingerprint :=
    hcopyInput.eq_of_source hinput consistent.tail hsource.symm
  rw [hsame, ← hrevision] at hundecided
  set answered := planned copy reply at_ with hanswered
  set row := Store.plannedJob job { answered with plan } with hrow
  have hrowFind : (planner.store.jobs.save row).find id = some row := by
    obtain rfl := Table.key_of_find hjob
    exact Table.find_save_self _ row
  have hanswers (fingerprint : String) (revision : Nat) :
      storedAnswers id fingerprint revision ((planner, .answer id reply at_) :: past) =
        if job.planningFingerprint = fingerprint ∧ job.revision = revision then
          answered :: storedAnswers id fingerprint revision past
        else storedAnswers id fingerprint revision past := by
    have hevent : planner.storedAnswer id fingerprint revision (.answer id reply at_) =
        if job.planningFingerprint = fingerprint ∧ job.revision = revision then some answered
        else none := by
      simp [storedAnswer, hjob, hheld, hanswered]
    rw [storedAnswers, List.filterMap_cons, hevent]
    by_cases hkey : job.planningFingerprint = fingerprint ∧ job.revision = revision
    · rw [if_pos hkey, if_pos hkey]
      rfl
    · rw [if_neg hkey, if_neg hkey]
      rfl
  have hresult (fingerprint : String) (revision : Nat) :
      (planner.store.rememberPlanning row).planningResults.find (id, fingerprint, revision) =
        if job.planningFingerprint = fingerprint ∧ job.revision = revision then
          some (PlanningResult.ofJob row)
        else planner.store.planningResults.find (id, fingerprint, revision) := by
    have hkey : (PlanningResult.ofJob row).key = (id, job.planningFingerprint, job.revision) := by
      rw [← Table.key_of_find hjob]
      rfl
    rw [Store.rememberPlanning, if_neg (show row.planningFingerprint ≠ "" from hnamed)]
    rw [Table.find_save, hkey]
    simp [eq_comm]
  refine ⟨fun found hfound hstored => ?_, fun found hfound => ?_,
    fun fingerprint revision hne => ⟨row, hrowFind, hinput.cons _, ?_⟩,
    fun fingerprint revision last hlast => ?_, fun fingerprint revision earlier hmem hstate => ?_,
    fun found hfound hstate => ?_⟩
  · cases hrowFind.symm.trans hfound
    exact hinput.cons _
  · simp at hfound
  · rw [hanswers] at hne
    split_ifs at hne with hkey
    · exact hkey.2.ge
    · obtain ⟨other, hother, -, hbound⟩ := law.bounded _ _ hne
      rw [hjob] at hother
      cases hother
      exact hbound
  · rw [hanswers] at hlast
    change ∃ result, (planner.store.rememberPlanning row).planningResults.find _ = _ ∧ _
    rw [hresult]
    split_ifs at hlast with hkey
    · cases hlast
      rw [if_pos hkey]
      exact ⟨_, rfl, .inr ⟨rfl, rfl⟩⟩
    · rw [if_neg hkey]
      exact law.recorded _ _ _ hlast
  · rw [hanswers] at hmem
    change ∃ result, (planner.store.rememberPlanning row).planningResults.find _ = _ ∧ _
    rw [hresult]
    split_ifs at hmem with hkey
    · obtain ⟨rfl, rfl⟩ := hkey
      rw [if_pos ⟨rfl, rfl⟩]
      rcases List.mem_cons.mp hmem with rfl | hearlier
      · exact ⟨_, rfl, decide_eq_true hstate⟩
      · exact absurd (hundecided earlier hearlier) hstate
    · rw [if_neg hkey]
      exact law.decided _ _ _ hmem hstate
  · cases hrowFind.symm.trans hfound
    rw [hanswers, if_pos ⟨rfl, rfl⟩]
    refine ⟨fun earlier hmem => ?_, fun last hlast => ?_⟩
    · rcases List.mem_cons.mp hmem with rfl | hearlier
      · exact hstate
      · exact hundecided earlier hearlier
    · cases hlast
      exact ⟨rfl, rfl⟩

/-- Every step of the planner keeps what is remembered about a job. -/
theorem step (hrun : Reaches Step init past planner) (law : Remembers id past planner)
    (consistent : Consistent id ((planner, event) :: past))
    (hstep : planner.Step event planner') : Remembers id ((planner, event) :: past) planner' := by
  have hcases := cases_of_step hstep
  have hcopies (copy : Job)
      (hheld : planner'.outstanding id = some copy) :
      planner.outstanding id = some copy ∨ planner.store.jobs.find id = some copy ∧
        copy.state = .observed ∧ copy.evidence.len ≠ 0 :=
    (outstanding_of_cases hcases hheld).imp_right And.right
  cases hcases with
  | call other step => exact law.call consistent other step
  | @answer jobID copy reply at_ store held step =>
    have hid : copy.id = jobID := (outstanding_of_reaches hrun jobID copy held).1
    by_cases hsame : jobID = id
    · subst hsame
      exact law.answer hid consistent held step.2
    · have hne : id ≠ (planned copy reply at_).id := by
        rw [planned_id, hid]
        exact Ne.symm hsame
      have hother := Store.finishPlanning_other hne step.2
      exact law.of_quiet (storedAnswers_cons_of_none fun _ _ => if_neg fun h => hsame h.1)
        hother.1 hother.2 hcopies
  | read | drop | restart =>
    exact law.of_quiet (storedAnswers_cons_of_none fun _ _ => rfl) rfl (fun _ _ => rfl)
      hcopies

end Steps

end Remembers

section Runs

variable [JSONSerializer]

theorem remembers_of_reaches (hrun : Reaches Step init past planner)
    (consistent : Consistent id past) : Remembers id past planner := by
  induction hrun with
  | start => exact remembers_init
  | next hrun hstep ih => exact (ih consistent.tail).step hrun consistent hstep

/-- For a job whose observations carry planning fingerprints that its source
fingerprints determine: once `FinishPlanning` stored a decision for an input at
a revision, the job never waits to be planned for that input at that revision
again; and while it waits after failed attempts only, it has the attempt count
and the retry time of the last of them. -/
theorem decided_input_never_waits (hrun : Reaches Step init past planner)
    (consistent : Consistent id past) {job : Job}
    (hjob : planner.store.jobs.find id = some job) (hwaits : job.state = .observed) :
    (∀ answer ∈ storedAnswers id job.planningFingerprint job.revision past,
      answer.state ≠ .ready ∧ answer.state ≠ .blocked) ∧
    ∀ answer, (storedAnswers id job.planningFingerprint job.revision past).head? = some answer →
      job.planningAttempts = answer.planningAttempts ∧ job.retryAt = answer.retryAt := by
  obtain ⟨hundecided, hretry⟩ := (remembers_of_reaches hrun consistent).waiting job hjob hwaits
  refine ⟨fun answer hmem => ?_, hretry⟩
  rw [hundecided answer hmem]
  exact ⟨by decide, by decide⟩

end Runs

attribute [local instance] compactSerializer

/-- Planning the first case fails, a second case comes and goes. -/
def resumedEvents : List PlannerEvent :=
  [.call (.observe (Store.sampleCase "first" 1)), .read 1, .answer 1 (.error "timeout") 2,
    .call (.observe (Store.sampleCase "second" 3)), .call (.observe (Store.sampleCase "first" 5))]

theorem decided_input_never_waits_resumed :
    ∃ past planner job answer, execute next [] init resumedEvents = some (past, planner) ∧
      planner.store.jobs.find 1 = some job ∧ job.state = .observed ∧ job.planningAttempts = 1 ∧
      (storedAnswers 1 job.planningFingerprint job.revision past).head? = some answer ∧
      job.planningAttempts = answer.planningAttempts ∧ job.retryAt = answer.retryAt :=
  ⟨_, _, _, _, rfl, rfl, rfl, rfl, rfl,
    (decided_input_never_waits (Reaches.execute (fun _ _ _ h => h) resumedEvents .start rfl)
      (show Consistent 1 _ from ⟨by decide, by decide⟩) rfl rfl).2 _ rfl⟩

/-- As before, but the job leaves the queue while it has the second case. -/
def removedEvents : List PlannerEvent :=
  [.call (.observe (Store.sampleCase "first" 1)), .read 1, .answer 1 (.error "timeout") 2,
    .call (.observe (Store.sampleCase "second" 3)), .call (.reconcileQueue .lidarr [] 4),
    .call (.observe (Store.sampleCase "first" 5))]

/-- A removed job returns to an input with one failed attempt on record and
does not take up its attempt count and retry time. -/
theorem removed_job_does_not_resume :
    ∃ past planner job answer result,
      execute next [] init removedEvents = some (past, planner) ∧ Consistent 1 past ∧
      storedAnswers 1 "first" 0 past = [answer] ∧ answer.state = .observed ∧
      planner.store.planningResults.find (1, "first", 0) = some result ∧
      result.complete = false ∧
      planner.store.jobs.find 1 = some job ∧ job.planningFingerprint = "first" ∧
      job.revision = 0 ∧ job.state = .removed ∧
      answer.planningAttempts = 1 ∧ job.planningAttempts = 0 ∧
      answer.retryAt = 2 + 5 * minute ∧ job.retryAt = 0 :=
  ⟨_, _, _, _, _, rfl, ⟨by decide, by decide⟩, rfl, rfl, rfl, rfl, rfl, rfl, rfl, rfl, rfl, rfl,
    rfl, rfl⟩

end Planner

end NixConfig.MediaRepair.Repair
