/-
# Reconciling jobs with the queue

Every job follows one entry of the queue of its service. An entry keeps its download
but may come back under another queue identifier, so a job whose key is gone follows
the only entry of its download, as long as no other job has the better claim to it.

Each round of the loop settles one job in one of five ways. No entry is followed by
two jobs, whatever is not about the queue stays as it was, and after one pass a
second one has nothing to do. But a job may be left alone: its own entry is gone,
and the only entry of its download belongs to another job. Such a job stays in the
queue as far as the store knows.
-/

import NixConfig.MediaRepair.Jobs.Change

namespace NixConfig.MediaRepair.Jobs

open Data Semantics

/-! ## Which entry is matched -/

variable {wanted : QueueKey} {candidates : List QueueKey} {result : Option Nat}

theorem matchQueueFrom_of_mem (hmem : wanted ∈ candidates) (index : Nat) (found : Option Nat)
    (count : Nat) :
    ∃ position, matchQueueFrom wanted candidates index found count =
      .ok (some (index + position)) ∧ candidates[position]? = some wanted := by
  induction candidates generalizing index found count with
  | nil => cases hmem
  | cons candidate rest ih =>
    rw [matchQueueFrom]
    by_cases hsame : candidate = wanted
    · exact ⟨0, by rw [if_pos hsame]; rfl, by rw [hsame]; rfl⟩
    · have hrest := (List.mem_cons.mp hmem).resolve_left (Ne.symm hsame)
      rw [if_neg hsame]
      -- Whatever was found so far, the row itself is met later.
      split
      · obtain ⟨position, hmatch, hat⟩ := ih hrest (index + 1) (some index) (count + 1)
        exact ⟨position + 1, by rw [hmatch]; congr 2; omega, hat⟩
      · obtain ⟨position, hmatch, hat⟩ := ih hrest (index + 1) found count
        exact ⟨position + 1, by rw [hmatch]; congr 2; omega, hat⟩

/-- A row that is in the queue is followed itself. -/
theorem matchQueue_of_mem (hmem : wanted ∈ candidates) :
    ∃ position, matchQueue wanted candidates = .ok (some position) ∧
      candidates[position]? = some wanted := by
  obtain ⟨position, hmatch, hat⟩ := matchQueueFrom_of_mem hmem 0 none 0
  exact ⟨position, by rw [matchQueue, hmatch, Nat.zero_add], hat⟩

theorem matchQueueFrom_of_forall
    (hother : ∀ candidate ∈ candidates, candidate.downloadID ≠ wanted.downloadID) (index : Nat)
    (found : Option Nat) : matchQueueFrom wanted candidates index found 0 = .ok found := by
  induction candidates generalizing index with
  | nil => rfl
  | cons candidate rest ih =>
    have hne := hother candidate List.mem_cons_self
    rw [matchQueueFrom, if_neg (fun hsame => hne (by rw [hsame])),
      if_neg (fun hsame => hne hsame.2)]
    exact ih (fun candidate hmem => hother candidate (List.mem_cons_of_mem _ hmem)) (index + 1)

/-- The entries of the download that is wanted. -/
def Shares (wanted candidate : QueueKey) : Prop :=
  wanted.downloadID ≠ "" ∧ candidate.downloadID = wanted.downloadID

/-- What the loop comes to among candidates that do not have the key itself: what it had
found, or the only entry of the download. -/
theorem shares_of_matchQueueFrom {index count : Nat} {found : Option Nat}
    (hnot : wanted ∉ candidates)
    (hmatch : matchQueueFrom wanted candidates index found count = .ok result) :
    (count ≤ 1 ∧ result = found ∧ ∀ candidate ∈ candidates, ¬ Shares wanted candidate) ∨
      count = 0 ∧ ∃ position entry, result = some (index + position) ∧
        candidates[position]? = some entry ∧ Shares wanted entry ∧
        ∀ candidate ∈ candidates, Shares wanted candidate → candidate = entry := by
  induction candidates generalizing index found count with
  | nil =>
    rw [matchQueueFrom] at hmatch
    split_ifs at hmatch
    exact .inl ⟨by omega, (Except.ok.inj hmatch).symm, by simp⟩
  | cons candidate rest ih =>
    rw [List.mem_cons, not_or] at hnot
    rw [matchQueueFrom, if_neg (Ne.symm hnot.1)] at hmatch
    split at hmatch
    · rename_i hshares
      -- This entry is the match, and with another one the loop would have failed.
      rcases ih hnot.2 hmatch with ⟨hcount, hresult, hnone⟩ | ⟨hcount, -⟩
      · refine .inr ⟨by omega, 0, candidate, hresult, rfl, hshares, ?_⟩
        intro other hother hsame
        rcases List.mem_cons.mp hother with rfl | hother
        · rfl
        · exact absurd hsame (hnone other hother)
      · omega
    · rename_i hother
      rcases ih hnot.2 hmatch with ⟨hcount, hresult, hnone⟩ |
        ⟨hcount, position, entry, hresult, hat, hshares, hunique⟩
      · exact .inl ⟨hcount, hresult, List.forall_mem_cons.mpr ⟨hother, hnone⟩⟩
      · refine .inr ⟨hcount, position + 1, entry, ?_, hat, hshares, ?_⟩
        · rw [hresult]
          congr 1
          omega
        · intro other hmem hsame
          rcases List.mem_cons.mp hmem with rfl | hmem
          · exact absurd hsame hother
          · exact hunique other hmem hsame

/-- What `MatchQueue` says of a key: its own entry, the only entry of its download, or
none. -/
inductive Matched (wanted : QueueKey) (candidates : List QueueKey) : Option Nat → Prop
  | itself {position : Nat} (hat : candidates[position]? = some wanted) :
      Matched wanted candidates (some position)
  | only {position : Nat} {entry : QueueKey} (hnot : wanted ∉ candidates)
      (hat : candidates[position]? = some entry) (hshares : Shares wanted entry)
      (hunique : ∀ candidate ∈ candidates, Shares wanted candidate → candidate = entry) :
      Matched wanted candidates (some position)
  | none (hnot : wanted ∉ candidates)
      (hother : ∀ candidate ∈ candidates, ¬ Shares wanted candidate) :
      Matched wanted candidates none

theorem matched_of_matchQueue (hmatch : matchQueue wanted candidates = .ok result) :
    Matched wanted candidates result := by
  by_cases hmem : wanted ∈ candidates
  · obtain ⟨position, hfound, hat⟩ := matchQueue_of_mem hmem
    cases hfound.symm.trans hmatch
    exact .itself hat
  · rcases shares_of_matchQueueFrom hmem hmatch with ⟨-, rfl, hnone⟩ |
      ⟨-, position, entry, rfl, hat, hshares, hunique⟩
    · exact .none hmem hnone
    · rw [Nat.zero_add]
      exact .only hmem hat hshares hunique

/-- A key that occurs once is found where it is. -/
theorem matchQueue_of_nodup {index : Nat} (hnodup : candidates.Nodup)
    (hat : candidates[index]? = some wanted) :
    matchQueue wanted candidates = .ok (some index) := by
  obtain ⟨position, hmatch, hfound⟩ := matchQueue_of_mem (List.mem_of_getElem? hat)
  obtain ⟨hlt, hposition⟩ := List.getElem?_eq_some_iff.mp hfound
  obtain ⟨hlt', hindex⟩ := List.getElem?_eq_some_iff.mp hat
  have hsame : position = index :=
    (List.Nodup.getElem_inj_iff hnodup).mp (hposition.trans hindex.symm)
  rw [hmatch, hsame]

namespace Store

/-! ## How a job is settled -/

/-- What one round of the loop makes of a job. -/
inductive Settles (previous present : List QueueKey) (at_ : Time) (job : Job) : Job → Prop
  /-- Its entry is there, and the row says so. -/
  | listed (hmem : job.queueKey ∈ present) (hqueued : job.inQueue = true)
      (hstate : job.state ≠ .removed) : Settles previous present at_ job job
  /-- It follows its own entry, or the only one of its download, which nobody else has. -/
  | follow {entry : QueueKey} (hmem : entry ∈ present) (hdownload : entry.downloadID = job.downloadID)
      (hclaim : entry = job.queueKey ∨ job.queueKey ∉ present ∧ entry ∉ previous ∧
        ∀ candidate ∈ present, Shares job.queueKey candidate → candidate = entry) :
      Settles previous present at_ job (followJob job entry)
  | drop (hmatch : matchQueue job.queueKey present = .ok none) (hqueued : job.inQueue = true) :
      Settles previous present at_ job (dropJob job at_)
  | absent (hmatch : matchQueue job.queueKey present = .ok none) (hqueued : job.inQueue = false) :
      Settles previous present at_ job job
  /-- Its entry is gone, and the only one of its download belongs to another job. -/
  | strand {matched : Nat} {entry : QueueKey} (hnot : job.queueKey ∉ present)
      (hmatch : matchQueue job.queueKey present = .ok (some matched))
      (hat : present[matched]? = some entry) (hshares : Shares job.queueKey entry)
      (hheld : entry ∈ previous) : Settles previous present at_ job job

variable {job : Job} {previous : List QueueKey} {at_ : Time}

variable {entry : QueueKey} {present : List QueueKey} {index : Nat}

theorem queueKey_eq (hqueue : job.queueID = entry.queueID)
    (hdownload : entry.downloadID = job.downloadID) : entry = job.queueKey := by
  cases entry
  cases hqueue
  cases hdownload
  rfl

/-- One round for a job that matches an entry. -/
theorem reconcileJob_of_match {position : Nat}
    (hmatch : matchQueue job.queueKey present = .ok (some position))
    (hat : present[position]? = some entry) :
    reconcileJob previous present at_ index job = (matchQueue entry previous).map fun owner =>
      if owner ≠ some index then none
      else if job.queueID = entry.queueID ∧ job.inQueue ∧ job.state ≠ .removed then none
      else some (followJob job entry) := by
  obtain rfl : present.getD position job.queueKey = entry := by
    rw [List.getD_eq_getElem?_getD, hat, Option.getD_some]
  simp only [reconcileJob, hmatch, ← apply_ite pure]
  rfl

/-- Whoever has an entry that is not the key of the job is not the job. -/
theorem ne_index {other : Nat} (hindex : previous[index]? = some job.queueKey)
    (hother : previous[other]? = some entry) (hnot : job.queueKey ∉ present)
    (hmem : entry ∈ present) : some other ≠ some index := by
  intro hsame
  rw [Option.some.inj hsame, hindex] at hother
  exact hnot (Option.some.inj hother ▸ hmem)

theorem settles_of_reconcileJob {answer : Option Job} (hnodup : previous.Nodup)
    (hindex : previous[index]? = some job.queueKey)
    (hround : reconcileJob previous present at_ index job = .ok answer) :
    Settles previous present at_ job (answer.getD job) := by
  obtain ⟨found, hfound, hrest⟩ := bind_eq_ok.mp hround
  cases matched_of_matchQueue hfound with
  | none hnot hother =>
    cases hrest
    cases hqueued : job.inQueue with
    | true => exact .drop hfound hqueued
    | false => exact .absent hfound hqueued
  | @itself position hat =>
    -- The job is the owner of its own key.
    have hmem : job.queueKey ∈ present := List.mem_of_getElem? hat
    rw [reconcileJob_of_match hfound hat] at hround
    obtain ⟨owner, hmatched, rfl⟩ := map_eq_ok.mp hround
    cases (matchQueue_of_nodup hnodup hindex).symm.trans hmatched
    rw [if_neg (by simp)]
    split_ifs with hkept
    · exact .listed hmem hkept.2.1 hkept.2.2
    · exact .follow hmem rfl (.inl rfl)
  | @only position entry hnot hat hshares hunique =>
    have hmem : entry ∈ present := List.mem_of_getElem? hat
    rw [reconcileJob_of_match hfound hat] at hround
    obtain ⟨owner, hmatched, rfl⟩ := map_eq_ok.mp hround
    by_cases hheld : entry ∈ previous
    · -- Whoever has the entry is not this job.
      obtain ⟨other, hother, hotherAt⟩ := matchQueue_of_mem hheld
      cases hother.symm.trans hmatched
      rw [if_pos (ne_index hindex hotherAt hnot hmem)]
      exact .strand hnot hfound hat hshares hheld
    · -- The job is the only one with the download of the entry.
      have hself : Shares entry job.queueKey := by
        obtain ⟨hdownload, hsame⟩ := hshares
        exact ⟨hsame ▸ hdownload, hsame.symm⟩
      cases matched_of_matchQueue hmatched with
      | itself hself => exact absurd (List.mem_of_getElem? hself) hheld
      | none _ hother => exact absurd hself (hother _ (List.mem_of_getElem? hindex))
      | @only owner held _ howner _ hsingle =>
        obtain rfl := hsingle _ (List.mem_of_getElem? hindex) hself
        have hfirst := (matchQueue_of_nodup hnodup howner).symm.trans
          (matchQueue_of_nodup hnodup hindex)
        rw [if_neg (by simpa using Except.ok.inj hfirst)]
        split_ifs with hkept
        · exact absurd (queueKey_eq hkept.1 hshares.2 ▸ hmem) hnot
        · exact .follow hmem hshares.2 (.inr ⟨hnot, hheld, hunique⟩)

theorem queueKey_followJob (hdownload : entry.downloadID = job.downloadID) :
    (followJob job entry).queueKey = entry := by
  have hkey : (followJob job entry).queueKey = ⟨entry.queueID, job.downloadID⟩ := by
    unfold followJob
    split <;> rfl
  rw [hkey, ← hdownload]

theorem inQueue_followJob (job : Job) (entry : QueueKey) :
    (followJob job entry).inQueue = true ∧ (followJob job entry).state ≠ .removed := by
  unfold followJob
  split_ifs with hstate
  · exact ⟨rfl, State.noConfusion⟩
  · exact ⟨rfl, hstate⟩

theorem queueKey_dropJob (job : Job) (at_ : Time) :
    (dropJob job at_).queueKey = job.queueKey ∧ (dropJob job at_).inQueue = false := by
  unfold dropJob
  split <;> exact ⟨rfl, rfl⟩

/-- What a row says that is not about the queue. -/
structure SameContent (job row : Job) : Prop where
  id : row.id = job.id
  service : row.service = job.service
  downloadID : row.downloadID = job.downloadID
  plan : row.plan = job.plan
  guidance : row.guidance = job.guidance
  revision : row.revision = job.revision
  evidence : row.evidence = job.evidence

theorem SameContent.refl (job : Job) : SameContent job job := ⟨rfl, rfl, rfl, rfl, rfl, rfl, rfl⟩

theorem Settles.sameContent {row : Job} (hsettles : Settles previous present at_ job row) :
    SameContent job row := by
  cases hsettles with
  | listed => exact .refl job
  | absent => exact .refl job
  | strand => exact .refl job
  | follow =>
    unfold followJob
    split <;> exact ⟨rfl, rfl, rfl, rfl, rfl, rfl, rfl⟩
  | drop =>
    unfold dropJob
    split <;> exact ⟨rfl, rfl, rfl, rfl, rfl, rfl, rfl⟩

/-! ## The loop -/

/-- The loop settles every job, and writes no other row. -/
theorem settles_of_reconcileJobs {jobs : List Job} {store store' : Store} (hnodup : previous.Nodup)
    (hprevious : previous.drop index = jobs.map Job.queueKey) (hids : (jobs.map Job.id).Nodup)
    (hcall : reconcileJobs previous present at_ jobs index store = .ok store') :
    (∀ job ∈ jobs, store.jobs.find job.id = some job → ∃ row,
      store'.jobs.find job.id = some row ∧ Settles previous present at_ job row) ∧
    ∀ id ∉ jobs.map Job.id, store'.jobs.find id = store.jobs.find id := by
  induction jobs generalizing index store with
  | nil =>
    cases hcall
    exact ⟨by simp, fun _ _ => rfl⟩
  | cons job rest ih =>
    rw [List.map_cons, List.nodup_cons] at hids
    have hindex : previous[index]? = some job.queueKey := by
      have hhead := congrArg List.head? hprevious
      rwa [List.head?_drop] at hhead
    have hrest : previous.drop (index + 1) = rest.map Job.queueKey := by
      rw [← List.tail_drop, hprevious, List.map_cons, List.tail_cons]
    rw [reconcileJobs] at hcall
    obtain ⟨answer, hround, hcall⟩ := bind_eq_ok.mp hcall
    have hsettles := settles_of_reconcileJob hnodup hindex hround
    -- The rest is settled from the store that this round leaves.
    obtain ⟨written, hcall, hself, hother⟩ : ∃ written : Store,
        reconcileJobs previous present at_ rest (index + 1) written = .ok store' ∧
        (store.jobs.find job.id = some job →
          written.jobs.find job.id = some (answer.getD job)) ∧
        ∀ id ≠ job.id, written.jobs.find id = store.jobs.find id := by
      cases answer with
      | none => exact ⟨store, hcall, fun hfind => hfind, fun _ _ => rfl⟩
      | some row =>
        obtain ⟨saved, hsave, hcall⟩ := bind_eq_ok.mp hcall
        have hid : row.id = job.id := hsettles.sameContent.id
        refine ⟨saved, hcall, fun _ => ?_, fun id hne => ?_⟩
        · rw [eq_of_saveJob hsave, ← hid]
          exact Table.find_save_self _ _
        · rw [eq_of_saveJob hsave]
          exact Table.find_save_of_ne _ (by rwa [hid])
    obtain ⟨hjobs, hothers⟩ := ih hrest hids.2 hcall
    refine ⟨List.forall_mem_cons.mpr ⟨fun hfind => ?_, fun next hmem hfind => ?_⟩, fun id hid => ?_⟩
    · exact ⟨_, (hothers job.id hids.1).trans (hself hfind), hsettles⟩
    · have hne : next.id ≠ job.id := fun hsame => hids.1 (hsame ▸ List.mem_map_of_mem hmem)
      exact hjobs next hmem ((hother next.id hne).trans hfind)
    · rw [List.map_cons, List.mem_cons, not_or] at hid
      rw [hothers id hid.2, hother id hid.1]

section Pass

variable {store store' : Store} {service : Service} {present : List QueueKey} {at_ : Time}

theorem nodup_ids_list (store : Store) (service : Service) :
    ((store.list service).map Job.id).Nodup :=
  store.jobs.nodup.sublist (List.filter_sublist.map Job.id)

variable {job row : Job} {previous : List QueueKey} {jobs : List Job}

/-- What a pass over the queue does to the jobs of its service. -/
structure Reconciled (store : Store) (service : Service) (present : List QueueKey) (at_ : Time)
    (store' : Store) : Prop where
  settles : ∀ job ∈ store.list service, ∃ row ∈ store'.list service, row.id = job.id ∧
    Settles ((store.list service).map Job.queueKey) present at_ job row
  others : ∀ id, (∀ job ∈ store.list service, job.id ≠ id) →
    store'.jobs.find id = store.jobs.find id

theorem reconciled_of_reconcileQueue
    (hdistinct : ((store.list service).map Job.queueKey).Nodup)
    (hcall : store.reconcileQueue service present at_ = .ok store') :
    Reconciled store service present at_ store' := by
  obtain ⟨hjobs, hothers⟩ := settles_of_reconcileJobs hdistinct List.drop_zero
    (nodup_ids_list store service) hcall
  refine ⟨fun job hmem => ?_, fun id hid => hothers id ?_⟩
  · obtain ⟨hfind, hservice⟩ := mem_list_iff.mp hmem
    obtain ⟨row, hrow, hsettles⟩ := hjobs job hmem hfind
    have hsame := hsettles.sameContent
    refine ⟨row, mem_list_iff.mpr ⟨?_, hsame.service.trans hservice⟩, hsame.id, hsettles⟩
    rw [hsame.id, hrow]
  · rintro hmem
    obtain ⟨job, hjob, rfl⟩ := List.mem_map.mp hmem
    exact hid job hjob rfl

/-- Every row of the service afterwards is a settled one. -/
theorem Reconciled.origin (hreconciled : Reconciled store service present at_ store')
    (hrow : row ∈ store'.list service) :
    ∃ job ∈ store.list service, row.id = job.id ∧
      Settles ((store.list service).map Job.queueKey) present at_ job row := by
  obtain ⟨hfind, hservice⟩ := mem_list_iff.mp hrow
  by_cases hold : ∃ job ∈ store.list service, job.id = row.id
  · obtain ⟨job, hjob, hid⟩ := hold
    obtain ⟨settled, hsettled, hsame, hsettles⟩ := hreconciled.settles job hjob
    have hrows := (mem_list_iff.mp hsettled).1
    rw [hsame, hid, hfind] at hrows
    cases hrows
    exact ⟨job, hjob, hid.symm, hsettles⟩
  · -- A row of another service is where it was.
    push Not at hold
    rw [hreconciled.others row.id hold] at hfind
    exact absurd rfl (hold row (mem_list_iff.mpr ⟨hfind, hservice⟩))

/-! ## Exactness -/

/-- A job in the queue whose own entry is gone, while an entry of its download belongs
to another job. -/
def Stranded (store : Store) (service : Service) (present : List QueueKey) (job : Job) : Prop :=
  job ∈ store.list service ∧ job.inQueue = true ∧ job.queueKey ∉ present ∧ job.downloadID ≠ "" ∧
    ∃ other ∈ store.list service, other.downloadID = job.downloadID ∧ other.queueKey ∈ present

theorem inQueue_iff_of_settles (hsettles : Settles previous present at_ job row)
    (hshared : ∀ entry ∈ previous,
      Shares job.queueKey entry → job.inQueue = true → job.queueKey ∉ present → entry ∉ present) :
    row.inQueue = true ↔ row.queueKey ∈ present := by
  cases hsettles with
  | listed hmem hqueued _ => exact iff_of_true hqueued hmem
  | follow hmem hdownload _ =>
    rw [queueKey_followJob hdownload]
    exact iff_of_true (inQueue_followJob job _).1 hmem
  | drop hmatch _ =>
    obtain ⟨hkey, hqueued⟩ := queueKey_dropJob job at_
    rw [hkey, hqueued]
    cases matched_of_matchQueue hmatch with
    | none hnot _ => exact iff_of_false Bool.false_ne_true hnot
  | absent hmatch hqueued =>
    rw [hqueued]
    cases matched_of_matchQueue hmatch with
    | none hnot _ => exact iff_of_false Bool.false_ne_true hnot
  | strand hnot _ hat hshares hheld =>
    refine iff_of_false (fun hqueued => ?_) hnot
    exact hshared _ hheld hshares hqueued hnot (List.mem_of_getElem? hat)

/-- After a pass the rows of the service say which jobs have an entry in the queue, exactly
if no job was stranded. -/
theorem reconcileQueue_exact_iff (hdistinct : ((store.list service).map Job.queueKey).Nodup)
    (hcall : store.reconcileQueue service present at_ = .ok store') :
    (∀ row ∈ store'.list service, row.inQueue = true ↔ row.queueKey ∈ present) ↔
      ∀ job, ¬ Stranded store service present job := by
  have hreconciled := reconciled_of_reconcileQueue hdistinct hcall
  constructor
  · rintro hexact job ⟨hjob, hqueued, hnot, hdownload, other, hother, hsame, hpresent⟩
    have hshares : Shares job.queueKey other.queueKey := ⟨hdownload, hsame⟩
    have hprevious : other.queueKey ∈ (store.list service).map Job.queueKey :=
      List.mem_map_of_mem hother
    obtain ⟨row, hrow, -, hsettles⟩ := hreconciled.settles job hjob
    have hrowExact := hexact row hrow
    cases hsettles with
    | listed hmem => exact hnot hmem
    | follow hmem _ hclaim =>
      rcases hclaim with rfl | ⟨-, hheld, hunique⟩
      · exact hnot hmem
      · exact hheld (hunique _ hpresent hshares ▸ hprevious)
    | drop hmatch =>
      cases matched_of_matchQueue hmatch with
      | none _ hnone => exact hnone _ hpresent hshares
    | absent _ hqueued' =>
      rw [hqueued] at hqueued'
      cases hqueued'
    | strand => exact hnot (hrowExact.mp hqueued)
  · intro hstranded row hrow
    obtain ⟨job, hjob, -, hsettles⟩ := hreconciled.origin hrow
    refine inQueue_iff_of_settles hsettles fun entry hentry hshares hqueued hnot hpresent => ?_
    obtain ⟨other, hother, rfl⟩ := List.mem_map.mp hentry
    exact hstranded job ⟨hjob, hqueued, hnot, hshares.1, other, hother, hshares.2, hpresent⟩

/-! ## Keys stay apart -/

/-- The unique index over the queue identities holds. -/
def Distinct (store : Store) : Prop := (store.jobs.rows.map Job.identity).Nodup

theorem distinct_iff : store.Distinct ↔ ∀ job ∈ store.jobs.rows, ∀ other ∈ store.jobs.rows,
    job.identity = other.identity → job = other := by
  constructor
  · intro hdistinct job hjob other hother hsame
    exact List.inj_on_of_nodup_map hdistinct hjob hother hsame
  · intro hinj
    exact List.Nodup.map_on hinj (List.Nodup.of_map _ store.jobs.nodup)

theorem distinct_of_saveJob (hdistinct : store.Distinct) (hsave : store.saveJob job = .ok store') :
    store'.Distinct := by
  rw [distinct_iff] at hdistinct ⊢
  unfold saveJob at hsave
  split_ifs at hsave with hfree
  cases hsave
  -- The saved row has an identity of its own.
  have hown : ∀ other ∈ store.jobs.rows, other.id ≠ job.id → other.identity ≠ job.identity := by
    simpa using hfree
  intro first hfirst second hsecond hsame
  rcases Table.mem_save.mp hfirst with rfl | ⟨hkept, hfirstID⟩
  · rcases Table.mem_save.mp hsecond with rfl | ⟨hold, hsecondID⟩
    · rfl
    · exact absurd hsame.symm (hown second hold hsecondID)
  · rcases Table.mem_save.mp hsecond with rfl | ⟨hold, -⟩
    · exact absurd hsame (hown first hkept hfirstID)
    · exact hdistinct first hkept second hold hsame

variable {index : Nat}

theorem distinct_of_reconcileJobs (hdistinct : store.Distinct)
    (hcall : reconcileJobs previous present at_ jobs index store = .ok store') :
    store'.Distinct := by
  induction jobs generalizing index store with
  | nil =>
    cases hcall
    exact hdistinct
  | cons job rest ih =>
    rw [reconcileJobs] at hcall
    obtain ⟨answer, -, hcall⟩ := bind_eq_ok.mp hcall
    cases answer with
    | none => exact ih hdistinct hcall
    | some row =>
      obtain ⟨saved, hsave, hcall⟩ := bind_eq_ok.mp hcall
      exact ih (distinct_of_saveJob hdistinct hsave) hcall

theorem eq_of_queueKey (hdistinct : store.Distinct) {other : Job} (hjob : job ∈ store.list service)
    (hother : other ∈ store.list service) (hsame : job.queueKey = other.queueKey) :
    job = other := by
  obtain ⟨hfind, hservice⟩ := mem_list_iff.mp hjob
  obtain ⟨hfind', hservice'⟩ := mem_list_iff.mp hother
  have hqueue := congrArg QueueKey.queueID hsame
  have hdownload := congrArg QueueKey.downloadID hsame
  refine distinct_iff.mp hdistinct job (Table.mem_of_find hfind) other (Table.mem_of_find hfind') ?_
  exact Prod.ext (hservice.trans hservice'.symm) (Prod.ext hqueue hdownload)

theorem nodup_queueKeys (hdistinct : store.Distinct) (service : Service) :
    ((store.list service).map Job.queueKey).Nodup :=
  List.Nodup.map_on (fun _ hjob _ hother hsame => eq_of_queueKey hdistinct hjob hother hsame)
    (List.Nodup.of_map _ (nodup_ids_list store service))

/-! ## A second pass -/

theorem reconcileJob_listed (hnodup : previous.Nodup)
    (hindex : previous[index]? = some job.queueKey) (hmem : job.queueKey ∈ present)
    (hqueued : job.inQueue = true) (hstate : job.state ≠ .removed) :
    reconcileJob previous present at_ index job = .ok none := by
  obtain ⟨position, hmatch, hat⟩ := matchQueue_of_mem hmem
  rw [reconcileJob_of_match hmatch hat, matchQueue_of_nodup hnodup hindex]
  simp [Except.map, hqueued, hstate, Job.queueKey]

theorem reconcileJob_absent (hmatch : matchQueue job.queueKey present = .ok none)
    (hqueued : job.inQueue = false) :
    reconcileJob previous present at_ index job = .ok none := by
  refine bind_eq_ok.mpr ⟨_, hmatch, ?_⟩
  dsimp only
  rw [hqueued]
  rfl

theorem reconcileJob_stranded {matched : Nat} {entry : QueueKey}
    (hindex : previous[index]? = some job.queueKey) (hnot : job.queueKey ∉ present)
    (hmatch : matchQueue job.queueKey present = .ok (some matched))
    (hat : present[matched]? = some entry) (hheld : entry ∈ previous) :
    reconcileJob previous present at_ index job = .ok none := by
  obtain ⟨other, howner, hother⟩ := matchQueue_of_mem hheld
  rw [reconcileJob_of_match hmatch hat, howner]
  simp [Except.map, ne_index hindex hother hnot (List.mem_of_getElem? hat)]

/-- A settled job has nothing left to do, where whoever had a present entry still has it. -/
theorem Settles.quiet {after : List QueueKey} {later : Time}
    (hsettles : Settles previous present at_ job row) (hnodup : after.Nodup)
    (hindex : after[index]? = some row.queueKey)
    (hkept : ∀ entry ∈ previous, entry ∈ present → entry ∈ after) :
    reconcileJob after present later index row = .ok none := by
  cases hsettles with
  | listed hmem hqueued hstate => exact reconcileJob_listed hnodup hindex hmem hqueued hstate
  | @follow entry hmem hdownload _ =>
    obtain ⟨hqueued, hstate⟩ := inQueue_followJob job entry
    refine reconcileJob_listed hnodup hindex ?_ hqueued hstate
    rwa [queueKey_followJob hdownload]
  | drop hmatch _ =>
    obtain ⟨hkey, hqueued⟩ := queueKey_dropJob job at_
    exact reconcileJob_absent (by rwa [hkey]) hqueued
  | absent hmatch hqueued => exact reconcileJob_absent hmatch hqueued
  | strand hnot hmatch hat _ hheld =>
    exact reconcileJob_stranded hindex hnot hmatch hat
      (hkept _ hheld (List.mem_of_getElem? hat))

theorem reconcileJobs_quiet (hquiet : ∀ i job, jobs[i]? = some job →
      reconcileJob previous present at_ (index + i) job = .ok none) :
    reconcileJobs previous present at_ jobs index store = .ok store := by
  induction jobs generalizing index with
  | nil => rfl
  | cons job rest ih =>
    have hfirst := hquiet 0 job rfl
    have hrest : ∀ i next, rest[i]? = some next →
        reconcileJob previous present at_ (index + 1 + i) next = .ok none := by
      intro i next hat
      have hnext := hquiet (i + 1) next hat
      rwa [Nat.add_comm i 1, ← Nat.add_assoc] at hnext
    exact bind_eq_ok.mpr ⟨none, hfirst, ih hrest⟩

/-- A job whose entry is present keeps its key. -/
theorem queueKey_of_settles (hsettles : Settles previous present at_ job row)
    (hmem : job.queueKey ∈ present) :
    row.queueKey = job.queueKey := by
  cases hsettles with
  | listed => rfl
  | absent => rfl
  | strand => rfl
  | drop => exact (queueKey_dropJob job at_).1
  | follow _ hdownload hclaim =>
    rw [queueKey_followJob hdownload]
    rcases hclaim with hsame | ⟨hnot, -⟩
    · exact hsame
    · exact absurd hmem hnot

theorem Reconciled.again (hreconciled : Reconciled store service present at_ store')
    (hdistinct : store'.Distinct) (later : Time) :
    store'.reconcileQueue service present later = .ok store' := by
  refine reconcileJobs_quiet fun i row hat => ?_
  rw [Nat.zero_add]
  have hrow : row ∈ store'.list service := List.mem_of_getElem? hat
  obtain ⟨job, -, -, hsettles⟩ := hreconciled.origin hrow
  refine hsettles.quiet (nodup_queueKeys hdistinct service) ?_ fun entry hentry hpresent => ?_
  · rw [List.getElem?_map, hat, Option.map_some]
  · obtain ⟨holder, hholder, rfl⟩ := List.mem_map.mp hentry
    obtain ⟨kept, hkept, -, hsettled⟩ := hreconciled.settles holder hholder
    rw [← queueKey_of_settles hsettled hpresent]
    exact List.mem_map_of_mem hkept

/-- The database after a transaction: what it committed, or what was there before. -/
def committed (store : Store) : Except Error Store → Store
  | .ok store' => store'
  | .error _ => store

/-- A pass keeps the keys apart, gives no entry to two jobs, changes nothing but what is
about the queue and no other job, and leaves nothing to do; a pass that fails changes
nothing. -/
theorem reconcileQueue_keeps_apart (hdistinct : store.Distinct) :
    (∀ error, store.reconcileQueue service present at_ = .error error →
      store.committed (store.reconcileQueue service present at_) = store) ∧
    ∀ store', store.reconcileQueue service present at_ = .ok store' →
      store'.Distinct ∧
      (∀ entry ∈ present, ∀ job ∈ store'.list service, ∀ other ∈ store'.list service,
        job.queueKey = entry → other.queueKey = entry → job = other) ∧
      (∀ id job, store.jobs.find id = some job → ∃ row, store'.jobs.find id = some row ∧
        SameContent job row ∧ (job.service ≠ service → row = job)) ∧
      (∀ id, store.jobs.find id = none → store'.jobs.find id = none) ∧
      store'.attempts = store.attempts ∧ store'.planningResults = store.planningResults ∧
      ∀ later, store'.reconcileQueue service present later = .ok store' := by
  refine ⟨fun error herror => by rw [herror, committed], fun store' hcall => ?_⟩
  have hdistinct' : store'.Distinct := distinct_of_reconcileJobs hdistinct hcall
  have hreconciled := reconciled_of_reconcileQueue (nodup_queueKeys hdistinct service) hcall
  obtain ⟨hattempts, hresults, -⟩ := reconcileJobs_ok hcall
  refine ⟨hdistinct', ?_, fun id job hfind => ?_, fun id hnone => ?_, hattempts, hresults,
    hreconciled.again hdistinct'⟩
  · intro entry _ job hjob other hother hkey hkey'
    exact eq_of_queueKey hdistinct' hjob hother (hkey.trans hkey'.symm)
  -- a job of the service is settled by its own entry, the others are not in the list
  · have hid : job.id = id := Table.key_of_find hfind
    subst hid
    by_cases hservice : job.service = service
    · obtain ⟨row, hrow, hsame, hsettles⟩ :=
        hreconciled.settles job (mem_list_iff.mpr ⟨hfind, hservice⟩)
      refine ⟨row, ?_, hsettles.sameContent, fun hother => absurd hservice hother⟩
      rw [← hsame]
      exact (mem_list_iff.mp hrow).1
    · refine ⟨job, ?_, .refl job, fun _ => rfl⟩
      rw [hreconciled.others job.id, hfind]
      intro other hother hsame
      obtain ⟨hfind', hservice'⟩ := mem_list_iff.mp hother
      rw [hsame, hfind] at hfind'
      cases hfind'
      exact hservice hservice'
  · rw [hreconciled.others id, hnone]
    rintro job hjob rfl
    rw [(mem_list_iff.mp hjob).1] at hnone
    cases hnone

end Pass

/-! ### Two albums of one download, and a single -/

/-- A job for an entry of the queue. -/
def queuedJob (id : JobID) (queueID : Int) (downloadID : String) : Job :=
  { Job.zero .lidarr with id, queueID, downloadID, inQueue := true }

/-- Two jobs of one download and a job of another one, which has the given entry. -/
def albumJobs (queueID : Int) : List Job :=
  [queuedJob 1 10 "albums", queuedJob 2 20 "albums", queuedJob 3 queueID "single"]

theorem nodup_albumJobs (queueID : Int) : ((albumJobs queueID).map Job.id).Nodup := by
  change [1, 2, 3].Nodup
  decide

def albumStore (queueID : Int) : Store := ⟨⟨albumJobs queueID, nodup_albumJobs queueID⟩, .empty, .empty⟩

/-- The albums are still there, and the single has a new entry. -/
def albumKeys : List QueueKey := [⟨10, "albums"⟩, ⟨20, "albums"⟩, ⟨31, "single"⟩]

theorem reconcileQueue_albumStore :
    (albumStore 30).reconcileQueue .lidarr albumKeys 0 = .ok (albumStore 31) := rfl

/-- All three are present after the pass, and the rows say so. -/
theorem reconcileQueue_exact_albums : (((albumStore 30).list .lidarr).map Job.queueKey).Nodup ∧
    (albumStore 30).reconcileQueue .lidarr albumKeys 0 = .ok (albumStore 31) ∧
    ∀ row ∈ (albumStore 31).list .lidarr, row.inQueue = true ↔ row.queueKey ∈ albumKeys := by
  have hdistinct : (((albumStore 30).list .lidarr).map Job.queueKey).Nodup := by decide
  refine ⟨hdistinct, reconcileQueue_albumStore,
    (reconcileQueue_exact_iff hdistinct reconcileQueue_albumStore).mpr ?_⟩
  -- The only job without an entry is the only one of its download.
  have halone : ∀ job ∈ (albumStore 30).list .lidarr, job.queueKey ∉ albumKeys →
      ∀ other ∈ (albumStore 30).list .lidarr, other.downloadID = job.downloadID →
        other.queueKey ∉ albumKeys := by decide
  rintro job ⟨hjob, -, hnot, -, other, hother, hsame, hpresent⟩
  exact halone job hjob hnot other hother hsame hpresent

/-- The entry of the first album is gone. It stays in the queue, since the entry that is left
belongs to the second. -/
theorem reconcileQueue_strands_album : (((albumStore 30).list .lidarr).map Job.queueKey).Nodup ∧
    ∃ store', (albumStore 30).reconcileQueue .lidarr [⟨20, "albums"⟩, ⟨30, "single"⟩] 0 =
        .ok store' ∧
      ∃ row ∈ store'.list .lidarr, row.inQueue = true ∧
        row.queueKey ∉ [(⟨20, "albums"⟩ : QueueKey), ⟨30, "single"⟩] := by
  refine ⟨by decide, albumStore 30, rfl, queuedJob 1 10 "albums", ?_, rfl, by decide⟩
  decide

/-- The jobs stay apart, and a second pass has nothing to do. -/
theorem reconcileQueue_keeps_albums_apart : (albumStore 30).Distinct ∧
    (albumStore 30).reconcileQueue .lidarr albumKeys 0 = .ok (albumStore 31) ∧
    ∀ later, (albumStore 31).reconcileQueue .lidarr albumKeys later = .ok (albumStore 31) := by
  have hdistinct : (albumStore 30).Distinct := by
    unfold Distinct
    decide
  have hpass := (reconcileQueue_keeps_apart hdistinct).2 _ reconcileQueue_albumStore
  exact ⟨hdistinct, reconcileQueue_albumStore, hpass.2.2.2.2.2.2⟩

end Store

end NixConfig.MediaRepair.Jobs
