/-
# Cleaning up torrents

A run reads all torrents, selects those that the policy gives up, and then
reads and selects once more before it removes what both selections agree on.
Removal takes the data along, so it matters that the second selection alone
would have been safe: the floors hold for its own snapshot, and to remove fewer
torrents than it selects can only leave more.

The selection is greedy over counters that torrents of several trackers share.
It is `Quota.choose` on the counts of the snapshot, once the names of the aliases
are known to be those of the policy.

Times, ages, ratios and rates are floats in the source and exact rationals here: no
division or difference is rounded.
-/

import Mathlib.Data.List.Sort
import Mathlib.Data.String.Basic
import NixConfig.Data.Quota
import NixConfig.Semantics.Traced
import NixConfig.TorrentCleaner.History
import NixConfig.TorrentCleaner.Policy

namespace NixConfig.TorrentCleaner

open Data Semantics

/-- `DAY_SECONDS` -/
def day : ℚ := 86400

/-- A torrent, without the fields that only other programs read. -/
structure Torrent where
  hashString : String
  name : String
  addedDate : Int
  doneDate : Int
  leftUntilDone : Option Int
  sizeWhenDone : Nat
  trackerStats : List Tracker
  uploadRatio : Option ℚ
  uploadedEver : Option Nat
  secondsSeeding : Option Nat

structure Candidate where
  hash : String
  name : String
  ratio : Option ℚ
  ageDays : ℚ
  reasons : List Reason
  sizeBytes : Nat
  aliases : List String
  uploadBytesPerSecond : Option ℚ
  seedDays : Option ℚ

/-- `torrent_is_complete` -/
def Torrent.isComplete (torrent : Torrent) : Bool :=
  torrent.leftUntilDone = some 0 ∧ 0 < torrent.doneDate

/-- `torrent_added_timestamp` -/
def Torrent.addedTimestamp (torrent : Torrent) : Option Int :=
  if 0 < torrent.addedDate then some torrent.addedDate
  else if 0 < torrent.doneDate then some torrent.doneDate
  else none

/-- `(now - timestamp) / DAY_SECONDS` -/
def ageDays (now : ℚ) (timestamp : Int) : ℚ := (now - timestamp) / day

def Torrent.seedDays (torrent : Torrent) : Option ℚ :=
  torrent.secondsSeeding.map fun (seconds : Nat) => (seconds : ℚ) / day

/-! ## Selection -/

/-- Whether an alias still holds a torrent back. -/
def obliges (policy : TorrentPolicy) (completionAgeDays seedDays : ℚ) (name : String) :
    Except Failure Bool := do
  let retention ← policy.retention name
  return completionAgeDays < retention.minimumAgeDays ∨ seedDays < retention.minimumSeedDays

/-- The reasons for a torrent of some aliases: none if an obligation is open. -/
def aliasReasons (policy : TorrentPolicy) (aliases : List String) (completionAgeDays : ℚ)
    (seedDays rate : Option ℚ) : Except Failure (List Reason) :=
  match seedDays, rate with
  | some seedDays, some rate =>
    if policy.activity.minimumUploadBytesPerSecond ≤ rate then .ok []
    else do
      let obliged ← aliases.anyM (obliges policy completionAgeDays seedDays)
      return if obliged then [] else [.lowUpload]
  | _, _ => .ok []

/-- The reasons for a torrent of no alias. -/
def genericReasons (policy : TorrentPolicy) (torrent : Torrent) (now : ℚ) (rate : Option ℚ) :
    List Reason :=
  cleanupReasons policy.cleanup torrent.uploadRatio true (some (ageDays now torrent.doneDate))
    (torrent.addedTimestamp.map (ageDays now))
    (decide (∃ r ∈ rate, r < policy.activity.minimumUploadBytesPerSecond))

/-- The reasons for a torrent. -/
def reasonsFor (policy : TorrentPolicy) (torrent : Torrent) (aliases : List String) (now : ℚ)
    (rate : Option ℚ) : Except Failure (List Reason) :=
  if aliases = [] then .ok (genericReasons policy torrent now rate)
  else aliasReasons policy aliases (ageDays now torrent.doneDate) torrent.seedDays rate

/-- `cleanup_candidate` -/
def cleanupCandidate (policy : TorrentPolicy) (torrent : Torrent) (aliases : List String)
    (now : ℚ) (rate : Option ℚ) : Except Failure (Option Candidate) :=
  if torrent.hashString = "" ∨ torrent.name = "" ∨ torrent.isComplete = false then .ok none
  else do
    let reasons ← reasonsFor policy torrent aliases now rate
    if reasons = [] then return none
    else return some {
      hash := torrent.hashString
      name := torrent.name
      ratio := torrent.uploadRatio
      ageDays := ageDays now torrent.doneDate
      reasons := reasons
      sizeBytes := torrent.sizeWhenDone
      aliases := aliases.insertionSort (· ≤ ·)
      uploadBytesPerSecond := rate
      seedDays := torrent.seedDays }

/-- A dictionary of counters. -/
abbrev Counters := String → Option Int

/-- `remaining[alias] += delta` -/
def adjust (delta : Int) (remaining : Counters) (name : String) : Except Failure Counters :=
  match remaining name with
  | some count => .ok (Function.update remaining name (some (count + delta)))
  | none => .error (.key name)

/-- A torrent counts for the aliases that it matches once it is complete. -/
def countTorrent (torrent : Torrent) (aliases : List String) (remaining : Counters) :
    Except Failure Counters :=
  if torrent.isComplete then aliases.foldlM (adjust 1) remaining else .ok remaining

abbrev Rates := String → Option ℚ

section Select

variable (python : Python) (policy : TorrentPolicy) (aliases : Aliases) (now : ℚ) (rates : Rates)

/-- One torrent of the first loop of `select_candidates`. -/
def tally (found : List Candidate × Counters) (torrent : Torrent) :
    Except Failure (List Candidate × Counters) := do
  let matched ← matchingTrackerAliases python torrent.trackerStats aliases
  let remaining ← countTorrent torrent matched found.2
  let candidate ← cleanupCandidate policy torrent matched now (rates torrent.hashString)
  return (found.1 ++ candidate.toList, remaining)

/-- The order of `(-item.age_days, item.hash)`. -/
def Candidate.first (candidate other : Candidate) : Prop :=
  other.ageDays < candidate.ageDays ∨
    (other.ageDays = candidate.ageDays ∧ candidate.hash ≤ other.hash)

instance : DecidableRel Candidate.first := fun _ _ => inferInstanceAs (Decidable (_ ∨ _))

/-- Whether a tracker is at its floor. -/
def atFloor (remaining : Counters) (name : String) : Except Failure Bool :=
  match remaining name with
  | some count => do
    let retention ← policy.retention name
    return count ≤ retention.minimumRetained
  | none => .error (.key name)

/-- The second loop of `select_candidates`. -/
def selectAbove : Counters → List Candidate → Except Failure (List Candidate)
  | _, [] => .ok []
  | remaining, candidate :: rest => do
    if ← candidate.aliases.anyM (atFloor policy remaining) then selectAbove remaining rest
    else
      let lowered ← candidate.aliases.foldlM (adjust (-1)) remaining
      let selected ← selectAbove lowered rest
      return candidate :: selected

/-- `dict.fromkeys(policy.trackers, 0)` -/
def zeroCounters : Counters := fun name =>
  if name ∈ policy.trackers.map Prod.fst then some 0 else none

/-- `select_candidates` -/
def selectCandidates (torrents : List Torrent) : Except Failure (List Candidate) := do
  validateTrackerAliases policy aliases
  let (candidates, remaining) ←
    torrents.foldlM (tally python policy aliases now rates) ([], zeroCounters policy)
  selectAbove policy remaining (candidates.insertionSort Candidate.first)

end Select

/-! ## The run -/

/-- The histories of the torrents, by hash. -/
abbrev UploadHistory := String → Option TorrentHistory

/-- One torrent of `collect_upload_history`. -/
def collect (history : UploadHistory) (policy : TorrentPolicy) (now : ℚ)
    (found : UploadHistory × Rates) (torrent : Torrent) :
    Except Failure (UploadHistory × Rates) :=
  match torrent.uploadedEver with
  | none => .ok found
  | some uploaded =>
    if torrent.hashString = "" ∨ torrent.isComplete = false then .ok found
    else
      match observeUpload (history torrent.hashString) ⟨torrent.doneDate, uploaded, now⟩
          (policy.activity.windowDays * day) with
      | none => .error .history
      | some (observations, rate) =>
        .ok (Function.update found.1 torrent.hashString (some observations),
          if rate.isSome then Function.update found.2 torrent.hashString rate else found.2)

/-- `collect_upload_history` -/
def collectUploadHistory (torrents : List Torrent) (history : UploadHistory)
    (policy : TorrentPolicy) (now : ℚ) : Except Failure (UploadHistory × Rates) :=
  torrents.foldlM (collect history policy now) (fun _ => none, fun _ => none)

/-- What a run asks for that changes something. -/
inductive Call
  | save (history : UploadHistory)
  | remove (hashes : List String)

/-- The answers that a run gets, in the order of its questions. -/
structure Answers where
  trackersFile : Except Failure (Json String)
  torrents : Except Failure (List Torrent)
  now : ℚ
  stored : Except Failure UploadHistory
  saved : Except Failure Unit
  freshTorrents : Except Failure (List Torrent)
  freshNow : ℚ
  freshSaved : Except Failure Unit
  removed : Except Failure Unit

/-- `run_cleanup` -/
def runCleanup (python : Python) (policy : TorrentPolicy) (delete : Bool) (answers : Answers) :
    Traced Call Failure Unit := do
  let document ← Traced.quiet answers.trackersFile
  let aliases ← Traced.quiet (readTrackerAliases python document)
  Traced.quiet (validateTrackerAliases policy aliases)
  let torrents ← Traced.quiet answers.torrents
  let stored ← Traced.quiet answers.stored
  let (history, rates) ← Traced.quiet (collectUploadHistory torrents stored policy answers.now)
  Traced.call (.save history) answers.saved
  let candidates ←
    Traced.quiet (selectCandidates python policy aliases answers.now rates torrents)
  if candidates.isEmpty ∨ delete = false then return
  else
    let fresh ← Traced.quiet answers.freshTorrents
    let (freshHistory, freshRates) ←
      Traced.quiet (collectUploadHistory fresh history policy answers.freshNow)
    Traced.call (.save freshHistory) answers.freshSaved
    let freshCandidates ←
      Traced.quiet (selectCandidates python policy aliases answers.freshNow freshRates fresh)
    let planned := candidates.map Candidate.hash
    Traced.call (.remove ((freshCandidates.map Candidate.hash).filter (· ∈ planned)))
      answers.removed

/-! ## Counters -/

section Counters

variable {policy : TorrentPolicy} {counts : String → Int}

/-- Counters for the trackers of the policy. -/
def counted (policy : TorrentPolicy) (counts : String → Int) : Counters := fun name =>
  if name ∈ policy.trackers.map Prod.fst then some (counts name) else none

variable {delta : Int} {name : String} {adjusted : Counters}

theorem adjust_counted (hadjust : adjust delta (counted policy counts) name = .ok adjusted) :
    adjusted = counted policy fun other => counts other + if other = name then delta else 0 := by
  by_cases hname : name ∈ policy.trackers.map Prod.fst
  · rw [adjust, counted, if_pos hname] at hadjust
    cases hadjust
    funext other
    by_cases hother : other = name
    · rw [hother, Function.update_self, counted, if_pos hname, if_pos rfl]
    · simp [counted, hother]
  · rw [adjust, counted, if_neg hname] at hadjust
    cases hadjust

theorem foldlM_adjust_counted {names : List String} (hnodup : names.Nodup)
    (hadjust : names.foldlM (adjust delta) (counted policy counts) = .ok adjusted) :
    adjusted = counted policy fun other => counts other + if other ∈ names then delta else 0 := by
  induction names generalizing counts with
  | nil =>
    cases hadjust
    simp
  | cons name rest ih =>
    rw [List.nodup_cons] at hnodup
    rw [List.foldlM_cons] at hadjust
    obtain ⟨once, honce, hrest⟩ := bind_eq_ok.mp hadjust
    rw [adjust_counted honce] at hrest
    rw [ih hnodup.2 hrest]
    congr 1
    funext other
    by_cases hother : other = name
    · -- A name that occurs once is counted once.
      simp [hother, hnodup.1]
    · simp [hother]

/-- The floor of a tracker. -/
def floor (policy : TorrentPolicy) (name : String) : Int :=
  ((policy.trackers.lookup name).map fun retention => (retention.minimumRetained : Int)).getD 0

theorem floor_of_retention {retention : RetentionPolicy}
    (hretention : policy.retention name = .ok retention) :
    floor policy name = retention.minimumRetained := by
  rw [TorrentPolicy.retention] at hretention
  rw [floor]
  cases hlookup : policy.trackers.lookup name with
  | none => rw [hlookup] at hretention; cases hretention
  | some found =>
    rw [hlookup] at hretention
    cases hretention
    rfl

theorem atFloor_counted {low : Bool}
    (hfloor : atFloor policy (counted policy counts) name = .ok low) :
    low = decide (counts name ≤ floor policy name) := by
  by_cases hname : name ∈ policy.trackers.map Prod.fst
  · rw [atFloor, counted, if_pos hname] at hfloor
    obtain ⟨retention, hretention, hlow⟩ := bind_eq_ok.mp hfloor
    cases hlow
    rw [floor_of_retention hretention]
  · rw [atFloor, counted, if_neg hname] at hfloor
    cases hfloor

/-- The second loop chooses under the floors of the policy. -/
theorem selectAbove_eq_choose {candidates selected : List Candidate}
    (hnodup : ∀ candidate ∈ candidates, candidate.aliases.Nodup)
    (hselect : selectAbove policy (counted policy counts) candidates = .ok selected) :
    selected = Quota.choose Candidate.aliases (floor policy) counts candidates := by
  induction candidates generalizing counts selected with
  | nil =>
    cases hselect
    rfl
  | cons candidate rest ih =>
    rw [List.forall_mem_cons] at hnodup
    obtain ⟨low, hlow, hrest⟩ := bind_eq_ok.mp hselect
    cases low with
    | true =>
      obtain ⟨name, hmem, hname⟩ := anyM_eq_true hlow
      have hfloor : counts name ≤ floor policy name := by
        simpa using (atFloor_counted hname).symm
      rw [Quota.choose, if_pos ⟨name, hmem, hfloor⟩]
      exact ih hnodup.2 hrest
    | false =>
      have habove : ¬ ∃ name ∈ candidate.aliases, counts name ≤ floor policy name := by
        rintro ⟨name, hmem, hfloor⟩
        have hname := atFloor_counted (anyM_eq_false hlow name hmem)
        simp [hfloor] at hname
      obtain ⟨lowered, hlowered, hrest⟩ := bind_eq_ok.mp hrest
      obtain ⟨others, hothers, hselected⟩ := bind_eq_ok.mp hrest
      cases hselected
      rw [foldlM_adjust_counted hnodup.1 hlowered] at hothers
      rw [Quota.choose, if_neg habove, ih hnodup.2 hothers]
      congr 2
      funext name
      rw [Quota.take]
      split <;> omega

end Counters

/-! ## What a snapshot counts -/

section Snapshot

variable (python : Python) (policy : TorrentPolicy) (aliases : Aliases) (now : ℚ) (rates : Rates)

/-- Whether a torrent is complete and matches an alias. -/
def seeds (name : String) (torrent : Torrent) : Bool :=
  torrent.isComplete &&
    match matchingTrackerAliases python torrent.trackerStats aliases with
    | .ok matched => name ∈ matched
    | .error _ => false

/-- The candidate that a torrent is. -/
def candidateOf (torrent : Torrent) : Option Candidate :=
  match matchingTrackerAliases python torrent.trackerStats aliases with
  | .ok matched =>
    match cleanupCandidate policy torrent matched now (rates torrent.hashString) with
    | .ok candidate => candidate
    | .error _ => none
  | .error _ => none

/-- What the policy asks of a torrent that goes: every alias that it matches has
its age and its seeding time and the torrent uploads little, or it matches none
and there is a reason. -/
def Qualifies (torrent : Torrent) : Prop :=
  ∃ matched, matchingTrackerAliases python torrent.trackerStats aliases = .ok matched ∧
    (matched ≠ [] → ∃ seconds rate, torrent.secondsSeeding = some seconds ∧
      rates torrent.hashString = some rate ∧
      rate < policy.activity.minimumUploadBytesPerSecond ∧
      ∀ name ∈ matched, ∃ retention, policy.retention name = .ok retention ∧
        retention.minimumAgeDays ≤ ageDays now torrent.doneDate ∧
        retention.minimumSeedDays ≤ seconds / day) ∧
    (matched = [] → genericReasons policy torrent now (rates torrent.hashString) ≠ [])

variable {python policy aliases now rates}

variable {rate : Option ℚ} {torrent : Torrent} {candidate : Candidate} {torrents : List Torrent}
  {selected : List Candidate}

/-- Reasons for a torrent of some aliases are given only once nothing is owed. -/
theorem aliasReasons_ne_nil {names : List String} {age : ℚ} {seedDays : Option ℚ}
    {reasons : List Reason} (hreasons : aliasReasons policy names age seedDays rate = .ok reasons)
    (hsome : reasons ≠ []) : ∃ seeded r, seedDays = some seeded ∧ rate = some r ∧
      r < policy.activity.minimumUploadBytesPerSecond ∧
      ∀ name ∈ names, ∃ retention, policy.retention name = .ok retention ∧
        retention.minimumAgeDays ≤ age ∧ retention.minimumSeedDays ≤ seeded := by
  cases seedDays with
  | none => cases hreasons; exact absurd rfl hsome
  | some seeded =>
    cases rate with
    | none => cases hreasons; exact absurd rfl hsome
    | some r =>
      rw [aliasReasons] at hreasons
      split_ifs at hreasons with hlow
      · cases hreasons
        exact absurd rfl hsome
      · obtain ⟨obliged, hobliged, hreasons⟩ := bind_eq_ok.mp hreasons
        cases obliged with
        | true => cases hreasons; exact absurd rfl hsome
        | false =>
          refine ⟨seeded, r, rfl, rfl, lt_of_not_ge hlow, fun name hmem => ?_⟩
          obtain ⟨retention, hretention, hopen⟩ :=
            bind_eq_ok.mp (anyM_eq_false hobliged name hmem)
          have hmet : ¬ (age < retention.minimumAgeDays ∨ seeded < retention.minimumSeedDays) := by
            simpa using Except.ok.inj hopen
          push Not at hmet
          exact ⟨retention, hretention, hmet.1, hmet.2⟩

/-- What a candidate says about its torrent. -/
theorem cleanupCandidate_some {matched : List String}
    (hcandidate : cleanupCandidate policy torrent matched now rate = .ok (some candidate)) :
    torrent.isComplete ∧ candidate.hash = torrent.hashString ∧
      candidate.aliases = matched.insertionSort (· ≤ ·) ∧
      ∃ reasons, reasons ≠ [] ∧ reasonsFor policy torrent matched now rate = .ok reasons := by
  rw [cleanupCandidate] at hcandidate
  split at hcandidate
  · cases hcandidate
  rename_i hgiven
  push Not at hgiven
  obtain ⟨reasons, hreasons, hcandidate⟩ := bind_eq_ok.mp hcandidate
  split at hcandidate
  · cases hcandidate
  rename_i hsome
  cases hcandidate
  exact ⟨by simpa using hgiven.2.2, rfl, rfl, reasons, hsome, hreasons⟩

theorem candidateOf_some
    (hcandidate : candidateOf python policy aliases now rates torrent = some candidate) :
    torrent.isComplete ∧ candidate.hash = torrent.hashString ∧ candidate.aliases.Nodup ∧
      (∀ name, name ∈ candidate.aliases ↔ seeds python aliases name torrent) ∧
      Qualifies python policy aliases now rates torrent := by
  rw [candidateOf] at hcandidate
  split at hcandidate
  · rename_i matched hmatched
    split at hcandidate
    · rename_i found hfound
      rw [hcandidate] at hfound
      obtain ⟨hcomplete, hhash, haliases, reasons, hsome, hreasons⟩ := cleanupCandidate_some hfound
      refine ⟨hcomplete, hhash, ?_, fun name => ?_, matched, hmatched, fun hnames => ?_,
        fun hnone => ?_⟩
      · rw [haliases]
        exact (List.perm_insertionSort _ _).nodup_iff.mpr (nodup_of_matching hmatched)
      · rw [haliases, seeds, hcomplete, hmatched]
        simp
      · rw [reasonsFor, if_neg hnames] at hreasons
        obtain ⟨seeded, rate, hseeded, hrate, hlow, hmet⟩ := aliasReasons_ne_nil hreasons hsome
        obtain ⟨seconds, hseconds, rfl⟩ := Option.map_eq_some_iff.mp hseeded
        exact ⟨seconds, rate, hseconds, hrate, hlow, hmet⟩
      · rw [reasonsFor, if_pos hnone] at hreasons
        cases hreasons
        exact hsome
    · cases hcandidate
  · cases hcandidate

/-- The first loop counts the complete torrents of each alias and lists the
candidates. -/
theorem foldlM_tally {found candidates : List Candidate} {counts : String → Int}
    {remaining : Counters} (htally : torrents.foldlM (tally python policy aliases now rates)
      (found, counted policy counts) = .ok (candidates, remaining)) :
    candidates = found ++ torrents.filterMap (candidateOf python policy aliases now rates) ∧
      remaining = counted policy fun name =>
        counts name + (torrents.countP (seeds python aliases name) : Nat) := by
  induction torrents generalizing found counts with
  | nil =>
    cases htally
    simp
  | cons torrent rest ih =>
    rw [List.foldlM_cons] at htally
    simp only [tally, bind_eq_ok] at htally
    obtain ⟨_, ⟨matched, hmatched, raised, hraised, candidate, hcandidate, ⟨⟩⟩, hrest⟩ := htally
    have hcounted : raised = counted policy fun name =>
        counts name + if seeds python aliases name torrent then 1 else 0 := by
      cases hcomplete : torrent.isComplete with
      | true =>
        rw [countTorrent, hcomplete, if_pos rfl] at hraised
        rw [foldlM_adjust_counted (nodup_of_matching hmatched) hraised]
        simp [seeds, hcomplete, hmatched]
      | false =>
        rw [countTorrent, hcomplete] at hraised
        cases hraised
        simp [seeds, hcomplete]
    have hlisted : candidateOf python policy aliases now rates torrent = candidate := by
      rw [candidateOf, hmatched]
      simp only [hcandidate]
    rw [hcounted] at hrest
    obtain ⟨hcandidates, hremaining⟩ := ih hrest
    constructor
    · rw [hcandidates, List.filterMap_cons, hlisted, List.append_assoc]
      cases candidate <;> rfl
    · rw [hremaining]
      congr 1
      funext name
      rw [List.countP_cons]
      push_cast
      split <;> omega

variable (hselect : selectCandidates python policy aliases now rates torrents = .ok selected)
include hselect

/-- A selection is a choice among the candidates of its snapshot. -/
theorem selectCandidates_eq_choose :
    selected = Quota.choose Candidate.aliases (floor policy)
      (fun name => (torrents.countP (seeds python aliases name) : Nat))
      ((torrents.filterMap (candidateOf python policy aliases now rates)).insertionSort
        Candidate.first) := by
  obtain ⟨-, -, hselect⟩ := bind_eq_ok.mp hselect
  obtain ⟨⟨candidates, remaining⟩, htally, hselect⟩ := bind_eq_ok.mp hselect
  have hzero : zeroCounters policy = counted policy fun _ => 0 := rfl
  rw [hzero] at htally
  obtain ⟨hcandidates, hremaining⟩ := foldlM_tally htally
  rw [List.nil_append] at hcandidates
  simp only [zero_add] at hremaining
  rw [hcandidates, hremaining] at hselect
  refine selectAbove_eq_choose (fun candidate hmem => ?_) hselect
  obtain ⟨torrent, -, htorrent⟩ := List.mem_filterMap.mp ((List.mem_insertionSort _).mp hmem)
  exact (candidateOf_some htorrent).2.2.1

/-- Every selected candidate is that of a torrent. -/
theorem exists_torrent_of_selected (hmem : candidate ∈ selected) :
    ∃ torrent ∈ torrents, candidateOf python policy aliases now rates torrent = some candidate := by
  rw [selectCandidates_eq_choose hselect] at hmem
  have hsorted := (Quota.choose_sublist _ _).mem hmem
  exact List.mem_filterMap.mp ((List.mem_insertionSort _).mp hsorted)

/-- Removing some of what was selected, by hash, leaves each tracker at its floor
or above, or where it was. -/
theorem floors_after_removal {hashes : List String}
    (hdistinct : (torrents.map Torrent.hashString).Nodup)
    (hhashes : ∀ hash ∈ hashes, hash ∈ selected.map Candidate.hash) (name : String) :
    min (floor policy name) (torrents.countP (seeds python aliases name) : Nat) ≤
      ((torrents.filter (·.hashString ∉ hashes)).countP (seeds python aliases name) : Nat) := by
  have hkept : min (floor policy name) (torrents.countP (seeds python aliases name) : Nat) ≤
      (torrents.countP (seeds python aliases name) : Nat) -
        (selected.countP (name ∈ ·.aliases) : Nat) := by
    rw [selectCandidates_eq_choose hselect]
    exact Quota.min_le_sub_countP
      (fun name => (torrents.countP (seeds python aliases name) : Nat)) _ name
  -- Every torrent that goes is one of the selected candidates, and each of another.
  let gone := (torrents.filter (·.hashString ∈ hashes)).filter (seeds python aliases name)
  have hgone : (gone.map Torrent.hashString).Nodup :=
    ((List.filter_sublist.trans List.filter_sublist).map Torrent.hashString).nodup hdistinct
  have hwithin : gone.map Torrent.hashString ⊆
      (selected.filter (name ∈ ·.aliases)).map Candidate.hash := by
    intro hash hmem
    obtain ⟨torrent, htorrent, rfl⟩ := List.mem_map.mp hmem
    obtain ⟨htorrent, hseeds⟩ := List.mem_filter.mp htorrent
    obtain ⟨htorrent, hhash⟩ := List.mem_filter.mp htorrent
    obtain ⟨candidate, hselected, hcandidate⟩ :=
      List.mem_map.mp (hhashes _ (of_decide_eq_true hhash))
    obtain ⟨source, hsource, hsome⟩ := exists_torrent_of_selected hselect hselected
    obtain ⟨-, hsame, -, haliases, -⟩ := candidateOf_some hsome
    have heq : source = torrent :=
      List.inj_on_of_nodup_map hdistinct hsource htorrent (hsame.symm.trans hcandidate)
    refine List.mem_map.mpr ⟨candidate, List.mem_filter.mpr ⟨hselected, ?_⟩, hcandidate⟩
    rw [← heq] at hseeds
    exact decide_eq_true ((haliases name).mpr hseeds)
  have hcount : (torrents.filter (·.hashString ∈ hashes)).countP (seeds python aliases name) ≤
      selected.countP (name ∈ ·.aliases) := by
    have hlength := (List.subperm_of_subset hgone hwithin).length_le
    rw [List.length_map, List.length_map] at hlength
    rwa [List.countP_eq_length_filter, List.countP_eq_length_filter]
  have hsplit := List.countP_eq_countP_filter_add torrents (seeds python aliases name)
    (·.hashString ∈ hashes)
  simp only [← decide_not] at hsplit
  omega

end Snapshot

/-! ## Removal -/

/-- A run that removes has selected twice. -/
theorem remove_mem_calls {python : Python} {policy : TorrentPolicy} {delete : Bool}
    {answers : Answers} {hashes : List String}
    (hremove : .remove hashes ∈ (runCleanup python policy delete answers).calls) :
    ∃ document aliases torrents stored history rates candidates fresh freshHistory freshRates
      freshCandidates,
      answers.trackersFile = .ok document ∧ readTrackerAliases python document = .ok aliases ∧
      answers.torrents = .ok torrents ∧ answers.stored = .ok stored ∧
      collectUploadHistory torrents stored policy answers.now = .ok (history, rates) ∧
      selectCandidates python policy aliases answers.now rates torrents = .ok candidates ∧
      answers.freshTorrents = .ok fresh ∧
      collectUploadHistory fresh history policy answers.freshNow =
        .ok (freshHistory, freshRates) ∧
      selectCandidates python policy aliases answers.freshNow freshRates fresh =
        .ok freshCandidates ∧
      hashes = (freshCandidates.map Candidate.hash).filter
        (· ∈ candidates.map Candidate.hash) := by
  simp only [runCleanup, Traced.mem_calls_quiet_bind] at hremove
  obtain ⟨document, hdocument, aliases, haliases, ⟨⟩, -, torrents, htorrents, stored, hstored,
    ⟨history, rates⟩, hcollect, hremove⟩ := hremove
  -- The first call saves the history.
  rcases Traced.mem_calls_bind.mp hremove with hsave | ⟨-, -, hremove⟩
  · simp at hsave
  obtain ⟨candidates, hselect, hremove⟩ := Traced.mem_calls_quiet_bind.mp hremove
  split at hremove
  · simp at hremove
  simp only [Traced.mem_calls_quiet_bind] at hremove
  obtain ⟨fresh, hfresh, ⟨freshHistory, freshRates⟩, hcollectFresh, hremove⟩ := hremove
  rcases Traced.mem_calls_bind.mp hremove with hsave | ⟨-, -, hremove⟩
  · simp at hsave
  obtain ⟨freshCandidates, hselectFresh, hremove⟩ := Traced.mem_calls_quiet_bind.mp hremove
  have hhashes := Call.remove.inj (Traced.mem_calls_call.mp hremove)
  exact ⟨document, aliases, torrents, stored, history, rates, candidates, fresh, freshHistory,
    freshRates, freshCandidates, hdocument, haliases, htorrents, hstored, hcollect, hselect, hfresh,
    hcollectFresh, hselectFresh, hhashes⟩

/-- Whatever a run removes was selected in the first snapshot, is complete in the
fresh one and qualifies there, and of every tracker as many complete torrents
stay as it retains, or all that there were. -/
theorem cleanup_keeps_obligations_and_floors {python : Python} {policy : TorrentPolicy}
    {delete : Bool} {answers : Answers} {hashes : List String} {fresh : List Torrent}
    (hremove : .remove hashes ∈ (runCleanup python policy delete answers).calls)
    (hfresh : answers.freshTorrents = .ok fresh)
    (hdistinct : (fresh.map Torrent.hashString).Nodup) :
    ∃ document aliases torrents stored history rates candidates freshHistory freshRates,
      answers.trackersFile = .ok document ∧ readTrackerAliases python document = .ok aliases ∧
      answers.torrents = .ok torrents ∧ answers.stored = .ok stored ∧
      collectUploadHistory torrents stored policy answers.now = .ok (history, rates) ∧
      selectCandidates python policy aliases answers.now rates torrents = .ok candidates ∧
      collectUploadHistory fresh history policy answers.freshNow =
        .ok (freshHistory, freshRates) ∧
      (∀ hash ∈ hashes, hash ∈ candidates.map Candidate.hash ∧
        ∃ torrent ∈ fresh, torrent.hashString = hash ∧ torrent.isComplete ∧
          Qualifies python policy aliases answers.freshNow freshRates torrent) ∧
      ∀ name retention, policy.retention name = .ok retention →
        min retention.minimumRetained (fresh.countP (seeds python aliases name)) ≤
          (fresh.filter (·.hashString ∉ hashes)).countP (seeds python aliases name) := by
  obtain ⟨document, aliases, torrents, stored, history, rates, candidates, fresh', freshHistory,
    freshRates, freshCandidates, hdocument, haliases, htorrents, hstored, hcollect, hselect, hfresh',
    hcollectFresh, hselectFresh, rfl⟩ := remove_mem_calls hremove
  -- the snapshot of the removal is the second one
  cases Except.ok.inj (hfresh.symm.trans hfresh')
  refine ⟨document, aliases, torrents, stored, history, rates, candidates, freshHistory,
    freshRates, hdocument, haliases, htorrents, hstored, hcollect, hselect, hcollectFresh, ?_, ?_⟩
  · intro hash hmem
    obtain ⟨hselected, hplanned⟩ := List.mem_filter.mp hmem
    obtain ⟨candidate, hcandidate, rfl⟩ := List.mem_map.mp hselected
    obtain ⟨torrent, htorrent, hsome⟩ := exists_torrent_of_selected hselectFresh hcandidate
    obtain ⟨hcomplete, hhash, -, -, hqualifies⟩ := candidateOf_some hsome
    exact ⟨of_decide_eq_true hplanned, torrent, htorrent, hhash.symm, hcomplete, hqualifies⟩
  · intro name retention hretention
    -- the floors hold for all that was selected, and what is removed is a part of it
    have hsome : ∀ hash ∈ (freshCandidates.map Candidate.hash).filter
        (· ∈ candidates.map Candidate.hash), hash ∈ freshCandidates.map Candidate.hash :=
      fun hash hmem => List.mem_of_mem_filter hmem
    have hfloors := floors_after_removal hselectFresh hdistinct hsome name
    rw [floor_of_retention hretention] at hfloors
    exact_mod_cast hfloors

/-! ### A tracker that keeps one of two -/

/-- Names as they are, and no addresses. -/
def plainPython : Python := ⟨id, id, fun _ => none, fun _ => some none⟩

def onePolicy : TorrentPolicy where
  cleanup := none
  trackers := [("books", ⟨1, 10, 30, by norm_num, by norm_num⟩)]
  activity := ⟨1, 100, by norm_num, by norm_num⟩
  names_nodup := List.nodup_singleton _

def oldTorrent (hash : String) : Torrent :=
  ⟨hash, "book", 1, 1, some 0, 5, [⟨some "books.example", none⟩], some 2, some 7, some 2000000⟩

/-- Forty days after both were done, with a sample of the first day. -/
def idleAnswers : Answers where
  trackersFile := .ok (.object [("books", .string "books.example")])
  torrents := .ok [oldTorrent "b", oldTorrent "a"]
  now := 3456000
  stored := .ok fun _ => some ⟨1, [⟨10, 7⟩], ⟨3455000, 7⟩⟩
  saved := .ok ()
  freshTorrents := .ok [oldTorrent "b", oldTorrent "a"]
  freshNow := 3456001
  freshSaved := .ok ()
  removed := .ok ()

/-- The hashes of each removal. -/
def removals (calls : List Call) : List (List String) :=
  calls.filterMap fun call =>
    match call with
    | .save _ => none
    | .remove hashes => some hashes

theorem mem_of_mem_removals {calls : List Call} {hashes : List String}
    (hmem : hashes ∈ removals calls) : .remove hashes ∈ calls := by
  obtain ⟨call, hcall, hsome⟩ := List.mem_filterMap.mp hmem
  cases call with
  | save history => cases hsome
  | remove found =>
    cases hsome
    exact hcall

/-- One of the two goes and the other stays. -/
theorem one_book_stays :
    .remove ["a"] ∈ (runCleanup plainPython onePolicy true idleAnswers).calls ∧
    ∃ aliases, min 1 ([oldTorrent "b", oldTorrent "a"].countP (seeds plainPython aliases "books")) ≤
      ([oldTorrent "b", oldTorrent "a"].filter (·.hashString ∉ ["a"])).countP
        (seeds plainPython aliases "books") := by
  have hremove : .remove ["a"] ∈ (runCleanup plainPython onePolicy true idleAnswers).calls :=
    mem_of_mem_removals (by decide +kernel)
  obtain ⟨-, aliases, -, -, -, -, -, -, -, -, -, -, -, -, -, -, -, hfloors⟩ :=
    cleanup_keeps_obligations_and_floors hremove rfl (by decide)
  exact ⟨hremove, aliases, hfloors "books" _ rfl⟩

end NixConfig.TorrentCleaner
