/-
# The stabilization clock

A case whose observations carry no planning fingerprint is compared by its
source fingerprint, and `StableSince` says since when the sources are as they
are. It is never earlier than the first of the latest observations that all saw
the current sources, as long as an observation of different sources reaches the
branch that restarts the clock. It does not when the job was imported or
removed, where the fingerprint is replaced and the clock is not, nor while a
process owns the job, where the observation is not recorded at all.
-/

import NixConfig.MediaRepair.Jobs.Observation
import NixConfig.Semantics.Run

namespace NixConfig.MediaRepair.Jobs

open Data Semantics

/-- An observation as a service without planning fingerprints makes it: the
source fingerprint comes with the evidence. -/
def Job.Unplanned (observed : Job) : Prop :=
  observed.planningFingerprint = "" ∧ (observed.sourceFingerprint = "" ↔ observed.evidence = none)

instance (observed : Job) : Decidable observed.Unplanned := by
  unfold Job.Unplanned
  infer_instance

namespace Store

variable {store store' : Store} {past : List (Store × Call)} {call : Call} {id : JobID}

/-- The observations with evidence of a job, most recent first. -/
def evidences (id : JobID) (past : List (Store × Call)) : List Job :=
  past.filterMap fun entry => entry.1.observedEvidence id entry.2

/-- The latest observations of a job that all saw the given sources, most recent
first. -/
def trailing (id : JobID) (fingerprint : String) (past : List (Store × Call)) : List Job :=
  (evidences id past).takeWhile fun observed => observed.sourceFingerprint = fingerprint

/-- The observations of a job are those of a service without planning
fingerprints. -/
def ObservesUnplanned (id : JobID) (store : Store) : Call → Prop
  | .observe observed => store.observedID observed = id → observed.Unplanned
  | _ => True

/-- Different sources are observed only where the clock restarts: not on a job
that a process owns, was imported or was removed. -/
def RestartsClock (id : JobID) (store : Store) : Call → Prop
  | .observe observed =>
    ∀ job ∈ store.firstByIdentity observed, job.id = id → observed.evidence ≠ none →
      observed.sourceFingerprint ≠ job.sourceFingerprint →
      job.state.active = false ∧ job.state ≠ .imported ∧ job.state ≠ .removed
  | _ => True

instance (store : Store) (call : Call) : Decidable (ObservesUnplanned id store call) :=
  match call with
  | .observe observed =>
    inferInstanceAs (Decidable (store.observedID observed = id → observed.Unplanned))
  | .setPlan .. | .requestAction .. | .requestReconsideration .. | .finishPlanning .. | .start ..
  | .updateAttempt .. | .startRemoval .. | .finishRemoval .. | .reconcileQueue .. => isTrue trivial

instance (store : Store) (call : Call) : Decidable (RestartsClock id store call) :=
  match call with
  | .observe observed => inferInstanceAs (Decidable (∀ job ∈ store.firstByIdentity observed,
      job.id = id → observed.evidence ≠ none →
      observed.sourceFingerprint ≠ job.sourceFingerprint →
      job.state.active = false ∧ job.state ≠ .imported ∧ job.state ≠ .removed))
  | .setPlan .. | .requestAction .. | .requestReconsideration .. | .finishPlanning .. | .start ..
  | .updateAttempt .. | .startRemoval .. | .finishRemoval .. | .reconcileQueue .. => isTrue trivial

/-- What ties the clock of a job to the observations so far. -/
structure Clocked (id : JobID) (past : List (Store × Call)) (store : Store) : Prop where
  /-- The row has the sources that were observed last. -/
  current : ∀ job, store.jobs.find id = some job →
    ((evidences id past).head?.elim "" Job.sourceFingerprint) = job.sourceFingerprint
  /-- The clock started no earlier than the sources were first seen so. -/
  started : ∀ job, store.jobs.find id = some job → ∀ observed,
    (trailing id job.sourceFingerprint past).getLast? = some observed →
      observed.updatedAt ≤ job.stableSince
  /-- A job that does not exist was not observed. -/
  unknown : store.jobs.find id = none → evidences id past = []
  /-- Evidence carries a source fingerprint. -/
  sourced : ∀ observed ∈ evidences id past, observed.sourceFingerprint ≠ ""

theorem clocked_empty : Clocked id [] Store.empty where
  current := fun _ hfind => by cases hfind
  started := fun _ hfind => by cases hfind
  unknown := fun _ => rfl
  sourced := fun _ hmem => by cases hmem

theorem evidences_cons_of_none (hnone : store.observedEvidence id call = none) :
    evidences id ((store, call) :: past) = evidences id past :=
  List.filterMap_cons_none hnone

theorem evidences_cons_observe {observed : Job} (hevidence : observed.evidence ≠ none)
    (hid : store.observedID observed = id) :
    evidences id ((store, .observe observed) :: past) = observed :: evidences id past :=
  List.filterMap_cons_some (if_pos ⟨hevidence, hid⟩)

namespace Clocked

/-- Where nothing was observed and row and clock stay, the law stays. -/
private theorem of_same (law : Clocked id past store)
    (hnone : store.observedEvidence id call = none)
    (hrows : ∀ row, store'.jobs.find id = some row →
      (∃ job, store.jobs.find id = some job ∧ row.sourceFingerprint = job.sourceFingerprint ∧
        row.stableSince = job.stableSince) ∨
      store.jobs.find id = none ∧ row.sourceFingerprint = "")
    (hkept : store'.jobs.find id = none → store.jobs.find id = none) :
    Clocked id ((store, call) :: past) store' := by
  have hevidences : evidences id ((store, call) :: past) = evidences id past :=
    evidences_cons_of_none hnone
  refine ⟨fun row hrow => ?_, fun row hrow observed hlast => ?_, fun hrow => ?_, ?_⟩
  · rw [hevidences]
    rcases hrows row hrow with ⟨job, hjob, hsource, -⟩ | ⟨hnew, hsource⟩
    · rw [hsource]
      exact law.current job hjob
    · rw [law.unknown hnew, hsource]
      rfl
  · rw [trailing, hevidences] at hlast
    rcases hrows row hrow with ⟨job, hjob, hsource, hclock⟩ | ⟨hnew, hsource⟩
    · rw [hsource] at hlast
      rw [hclock]
      exact law.started job hjob observed hlast
    · rw [law.unknown hnew] at hlast
      cases hlast
  · rw [hevidences]
    exact law.unknown (hkept hrow)
  · rw [hevidences]
    exact law.sourced

/-- Other sources than the current ones were not observed last. -/
private theorem trailing_of_ne (law : Clocked id past store) {job : Job}
    (hjob : store.jobs.find id = some job) {fingerprint : String}
    (hne : fingerprint ≠ job.sourceFingerprint) : trailing id fingerprint past = [] := by
  have hcurrent := law.current job hjob
  unfold trailing
  cases hlist : evidences id past with
  | nil => rfl
  | cons latest earlier =>
    rw [hlist] at hcurrent
    have hlatest : latest.sourceFingerprint ≠ fingerprint := fun h => hne (h ▸ hcurrent)
    rw [List.takeWhile_cons_of_neg (by simpa using hlatest)]

/-- The current sources were observed last. -/
private theorem trailing_ne_nil (law : Clocked id past store) {job : Job}
    (hjob : store.jobs.find id = some job) (hsome : job.sourceFingerprint ≠ "") :
    trailing id job.sourceFingerprint past ≠ [] := by
  have hcurrent := law.current job hjob
  unfold trailing
  cases hlist : evidences id past with
  | nil =>
    rw [hlist] at hcurrent
    exact absurd hcurrent.symm hsome
  | cons latest earlier =>
    rw [hlist] at hcurrent
    have hlatest : latest.sourceFingerprint = job.sourceFingerprint := hcurrent
    rw [List.takeWhile_cons_of_pos (by simpa using hlatest)]
    exact List.cons_ne_nil _ _

/-- An observation with evidence of a known job. -/
private theorem observe (law : Clocked id past store) {observed job : Job}
    (hfound : store.firstByIdentity observed = some job) (hid : job.id = id)
    (hunplanned : observed.Unplanned) (hevidence : observed.evidence ≠ none)
    (hrestarts : RestartsClock id store (.observe observed)) {evidence : RawMessage}
    (hrow : store'.jobs.find id = some ((store.observeJob job observed).2.withEvidence evidence)) :
    Clocked id ((store, .observe observed) :: past) store' := by
  have hjob : store.jobs.find id = some job := hid ▸ find_of_firstByIdentity hfound
  have hsome : observed.sourceFingerprint ≠ "" := fun h => hevidence (hunplanned.2.mp h)
  have hevidences : evidences id ((store, .observe observed) :: past) =
      observed :: evidences id past :=
    evidences_cons_observe hevidence ((observedID_of_found hfound).trans hid)
  have hchanged : inputChanged job observed =
      decide (job.sourceFingerprint ≠ observed.sourceFingerprint) := if_pos hunplanned.1
  -- The row takes the observed sources; the clock restarts when they changed.
  have hwritten : (store.observeJob job observed).2.sourceFingerprint =
        observed.sourceFingerprint ∧
      ((store.observeJob job observed).2.stableSince = job.stableSince ∧
          observed.sourceFingerprint = job.sourceFingerprint ∨
        (store.observeJob job observed).2.stableSince = observed.updatedAt ∧
          observed.sourceFingerprint ≠ job.sourceFingerprint) := by
    by_cases hsame : observed.sourceFingerprint = job.sourceFingerprint
    · cases outcome_observeJob store job observed with
      | refreshed quiet row_eq =>
        rw [row_eq]
        exact ⟨hsame.symm, .inl ⟨rfl, hsame⟩⟩
      | kept idle evidence past row_eq =>
        rw [row_eq, evidencedJob, if_pos (.inr (.inr hunplanned.1))]
        exact ⟨rfl, .inl ⟨rfl, hsame⟩⟩
      | reopened idle evidence changed =>
        rw [hchanged] at changed
        exact absurd hsame.symm (of_decide_eq_true changed)
    · obtain ⟨hidle, himported, hremoved⟩ := hrestarts job hfound hid hevidence hsame
      cases outcome_observeJob store job observed with
      | refreshed quiet row_eq =>
        rcases quiet with hactive | hnone
        · rw [hidle] at hactive
          cases hactive
        · exact absurd hnone hevidence
      | kept idle evidence past row_eq =>
        rcases past with hunchanged | h | h
        · rw [hchanged] at hunchanged
          exact absurd (not_not.mp (of_decide_eq_false hunchanged)).symm hsame
        · exact absurd h himported
        · exact absurd h hremoved
      | reopened idle evidence changed notImported notRemoved fingerprint source evidence_eq
          stable =>
        exact ⟨source, .inr ⟨stable, hsame⟩⟩
  obtain ⟨hsource, hclock⟩ := hwritten
  have htrailing : trailing id observed.sourceFingerprint ((store, .observe observed) :: past) =
      observed :: trailing id observed.sourceFingerprint past := by
    rw [trailing, hevidences, List.takeWhile_cons_of_pos (by simp)]
    rfl
  refine ⟨fun row hfind => ?_, fun row hfind first hfirst => ?_, fun hnone => ?_, ?_⟩
  · rw [hrow] at hfind
    cases hfind
    rw [hevidences]
    exact hsource.symm
  · rw [hrow] at hfind
    cases hfind
    change (trailing id (store.observeJob job observed).2.sourceFingerprint _).getLast? = _ at hfirst
    change first.updatedAt ≤ (store.observeJob job observed).2.stableSince
    rw [hsource, htrailing] at hfirst
    rcases hclock with ⟨hkept, hsame⟩ | ⟨hrestarted, hne⟩
    · -- The run goes on: its first observation is the one it had.
      rw [hsame] at hfirst hsome
      rw [List.getLast?_cons_of_ne_nil (law.trailing_ne_nil hjob hsome)] at hfirst
      rw [hkept]
      exact law.started job hjob first hfirst
    · -- A new run starts with this observation.
      rw [law.trailing_of_ne hjob hne] at hfirst
      cases hfirst
      exact hrestarted.ge
  · rw [hrow] at hnone
    cases hnone
  · rw [hevidences]
    intro other hmem
    rcases List.mem_cons.mp hmem with rfl | hmem
    · exact hsome
    · exact law.sourced other hmem

/-- The first observation with evidence of a job that did not exist. -/
private theorem create (law : Clocked id past store) {observed : Job}
    (hid : id = store.nextID) (hnew : store.firstByIdentity observed = none)
    (hunplanned : observed.Unplanned) (hevidence : observed.evidence ≠ none)
    {evidence plan : RawMessage}
    (hrow : store'.jobs.find id = some { store.createdJob observed with evidence, plan }) :
    Clocked id ((store, .observe observed) :: past) store' := by
  have hunknown : evidences id past = [] := law.unknown (hid ▸ find_nextID store)
  have hevidences : evidences id ((store, .observe observed) :: past) = [observed] := by
    rw [evidences_cons_observe hevidence ((observedID_of_new hnew).trans hid.symm), hunknown]
  refine ⟨fun row hfind => ?_, fun row hfind first hfirst => ?_, fun hnone => ?_, ?_⟩
  · cases hrow.symm.trans hfind
    rw [hevidences]
    rfl
  · cases hrow.symm.trans hfind
    have htrailing : trailing id (store.createdJob observed).sourceFingerprint
        ((store, .observe observed) :: past) = [observed] := by
      rw [trailing, hevidences]
      exact List.takeWhile_cons_of_pos (by simp [createdJob])
    rw [htrailing] at hfirst
    cases hfirst
    exact le_rfl
  · cases hrow.symm.trans hnone
  · rw [hevidences]
    intro other hmem
    obtain rfl := List.mem_singleton.mp hmem
    exact fun h => hevidence (hunplanned.2.mp h)

variable [JSONSerializer]

/-- A call that observes nothing of the job leaves its sources and its clock. -/
private theorem unobserved (law : Clocked id past store) (hcall : store.Commits call store')
    (hnone : store.observedEvidence id call = none)
    (hunplanned : ObservesUnplanned id store call) : Clocked id ((store, call) :: past) store' := by
  refine law.of_same hnone (fun row hrow => ?_) fun hgone => ?_
  · rcases row_of_apply hcall hrow with
      hsame | ⟨observed, rfl, hnew, rfl, _, _, -, -, rfl⟩ | ⟨job, hjob, hchange⟩
    · exact .inl ⟨row, hsame, rfl, rfl⟩
    · have hid := observedID_of_new hnew
      refine .inr ⟨find_nextID store, (hunplanned hid).2.mpr ?_⟩
      by_contra hevidence
      rw [observedEvidence, if_pos ⟨hevidence, hid⟩] at hnone
      cases hnone
    · refine .inl ⟨job, hjob, ?_⟩
      by_cases hobserve : ∃ observed, call = .observe observed
      · obtain ⟨observed, rfl⟩ := hobserve
        cases hchange with
        | observe found =>
          have hid := (observedID_of_found found).trans (Table.key_of_find hjob)
          have hquiet : observed.evidence = none := by
            by_contra hevidence
            rw [observedEvidence, if_pos ⟨hevidence, hid⟩] at hnone
            cases hnone
          have hrow : (store.observeJob job observed).2 = refreshJob job observed := by
            rw [observeJob, if_neg (by simp [hquiet])]
          rw [hrow]
          exact ⟨rfl, rfl⟩
        | reconsider asks => cases asks
      · have hinput := hchange.leaves.sameInput fun observed h => hobserve ⟨observed, h⟩
        exact ⟨hinput.sourceFingerprint, hinput.stableSince⟩
  · cases hfind : store.jobs.find id with
    | none => rfl
    | some job =>
      obtain ⟨row, hrow, -⟩ := exists_row_of_apply hcall hfind
      rw [hgone] at hrow
      cases hrow

/-- Every committed call keeps the clock law of a job. -/
theorem apply (law : Clocked id past store) (hcall : store.Commits call store')
    (hunplanned : ObservesUnplanned id store call) (hrestarts : RestartsClock id store call) :
    Clocked id ((store, call) :: past) store' := by
  cases hnone : store.observedEvidence id call with
  | none => exact law.unobserved hcall hnone hunplanned
  | some observed =>
    obtain rfl : call = .observe observed := by
      unfold observedEvidence at hnone
      split at hnone
      · split at hnone
        · cases hnone
          rfl
        · cases hnone
      · cases hnone
    obtain ⟨hevidence, hid⟩ : observed.evidence ≠ none ∧ store.observedID observed = id := by
      by_contra hnot
      rw [observedEvidence, if_neg hnot] at hnone
      cases hnone
    obtain ⟨⟨saved, answer⟩, hobserve, rfl⟩ := map_eq_ok.mp hcall
    rcases observe_ok hobserve with ⟨hnew, _, ⟨evidence, plan, -, -, rfl⟩, rfl⟩ |
      ⟨job, evidence, hfound, -, rfl⟩
    · have hid := hid.symm.trans (observedID_of_new hnew)
      subst hid
      exact law.create rfl hnew (hunplanned (observedID_of_new hnew)) hevidence
        (Table.find_save_self _ { store.createdJob observed with evidence, plan })
    · have hjob : job.id = id := (observedID_of_found hfound).symm.trans hid
      have howner : SameOwner job (store.observeJob job observed).2 := sameOwner_observeJob _ _
      have hrow := Table.find_save_self store.jobs
        ((store.observeJob job observed).2.withEvidence evidence)
      rw [howner.id, hjob] at hrow
      exact law.observe hfound hjob (hunplanned hid) hevidence hrestarts hrow

end Clocked

variable [JSONSerializer]

theorem clocked_of_reaches (hrun : Reaches Store.Commits Store.empty past store)
    (hunplanned : ∀ entry ∈ past, ObservesUnplanned id entry.1 entry.2)
    (hrestarts : ∀ entry ∈ past, RestartsClock id entry.1 entry.2) : Clocked id past store :=
  Reaches.invariant_of_admitted
    (fun store call => ObservesUnplanned id store call ∧ RestartsClock id store call)
    (Clocked id) hrun (fun entry hmem => ⟨hunplanned entry hmem, hrestarts entry hmem⟩)
    clocked_empty fun _ law hadmitted hstep => law.apply hstep hadmitted.1 hadmitted.2

end Store

end NixConfig.MediaRepair.Jobs
