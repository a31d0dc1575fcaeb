/-
# Upload history

The cleaner deletes seeds that upload little. What it knows about uploads are
counters that it reads itself, every hour or so: of each torrent it keeps one
reading an hour over a window, the last one before the window, and the latest.
A rate is reported once the readings reach back over the whole window, and it
counts everything uploaded since the reading before the window.

Any break starts over: a new completion, a counter that fell, a clock that went
back, more than two hours without a reading. What has to be shown of the kept
samples is therefore about readings that are long forgotten: that they followed
each other without a break since the first sample that is kept.

Times are rational numbers of seconds.
-/

import NixConfig.Data.Rolling
import Mathlib.Tactic.FieldSimp

namespace NixConfig.TorrentCleaner

open Data

/-- `HOUR_SECONDS` -/
def hour : ℚ := 3600

structure Sample where
  timestamp : ℚ
  uploadedBytes : Nat
  deriving DecidableEq

structure TorrentHistory where
  completedAt : Int
  samples : List Sample
  lastObservation : Sample
  deriving DecidableEq

/-- Neither time nor counter falls. -/
def Sample.before (previous current : Sample) : Prop :=
  previous.timestamp ≤ current.timestamp ∧ previous.uploadedBytes ≤ current.uploadedBytes

instance (previous current : Sample) : Decidable (previous.before current) :=
  inferInstanceAs (Decidable (_ ∧ _))

/-- `validate_observations` -/
def TorrentHistory.Valid (history : TorrentHistory) : Prop :=
  history.samples ≠ [] ∧
    (history.samples ++ [history.lastObservation]).IsChain Sample.before

instance (history : TorrentHistory) : Decidable history.Valid :=
  inferInstanceAs (Decidable (_ ∧ _))

/-- The arguments of one call that differ from call to call. -/
structure Observation where
  completedAt : Int
  uploadedBytes : Nat
  now : ℚ

def Observation.sample (observation : Observation) : Sample :=
  ⟨observation.now, observation.uploadedBytes⟩

/-- The samples that an observation does not break with. -/
def continued (previous : Option TorrentHistory) (observation : Observation) : List Sample :=
  match previous with
  | none => []
  | some history =>
    let latest := history.lastObservation
    if history.completedAt ≠ observation.completedAt ∨
        observation.uploadedBytes < latest.uploadedBytes ∨
        ¬ (0 ≤ observation.now - latest.timestamp ∧
          observation.now - latest.timestamp ≤ 2 * hour) then
      []
    else history.samples

/-- The samples to keep: those of the window, and the new one if the last is an
hour old. -/
def retainedSamples (samples : List Sample) (observation : Observation) (window : ℚ) :
    List Sample :=
  let retained := trim Sample.timestamp (observation.now - window) samples
  if ∀ last ∈ retained.getLast?, hour ≤ observation.now - last.timestamp then
    retained ++ [observation.sample]
  else retained

/-- `observe_upload`: nothing if the new history does not validate. -/
def observeUpload (previous : Option TorrentHistory) (observation : Observation) (window : ℚ) :
    Option (TorrentHistory × Option ℚ) :=
  let samples := continued previous observation
  let rate := (baseline Sample.timestamp (observation.now - window) samples).map fun sample =>
    ((observation.uploadedBytes : ℚ) - sample.uploadedBytes) / window
  let history : TorrentHistory :=
    ⟨observation.completedAt, retainedSamples samples observation window, observation.sample⟩
  if history.Valid then some (history, rate) else none

/-- The history after some observations, most recent first: nothing if a call
failed. -/
def observeAll (window : ℚ) : List Observation → Option (Option TorrentHistory)
  | [] => some none
  | observation :: past =>
    (observeAll window past).bind fun previous =>
      (observeUpload previous observation window).map fun result => some result.1

/-! ## Without a break -/

/-- One observation follows another without a break. -/
def Observation.Follows (later earlier : Observation) : Prop :=
  later.completedAt = earlier.completedAt ∧ earlier.uploadedBytes ≤ later.uploadedBytes ∧
    earlier.now ≤ later.now ∧ later.now - earlier.now ≤ 2 * hour

/-- Some observations, most recent first, with no break between them. -/
def Unbroken (observations : List Observation) : Prop := observations.IsChain Observation.Follows

theorem Sample.before.trans {first second third : Sample} (hfirst : first.before second)
    (hsecond : second.before third) : first.before third :=
  ⟨hfirst.1.trans hsecond.1, hfirst.2.trans hsecond.2⟩

/-- Without a break, neither time nor counter falls from the first observation
on. -/
theorem Unbroken.before {since : List Observation} {first : Observation}
    (hunbroken : Unbroken (since ++ [first])) :
    ∀ observation ∈ since ++ [first], first.sample.before observation.sample := by
  induction since with
  | nil =>
    intro observation hmem
    rw [List.nil_append, List.mem_singleton] at hmem
    rw [hmem]
    exact ⟨le_rfl, le_rfl⟩
  | cons latest since ih =>
    rw [List.cons_append, Unbroken, List.isChain_cons] at hunbroken
    have hearlier := ih hunbroken.2
    intro observation hmem
    rcases List.mem_cons.mp hmem with rfl | hmem
    · -- The one before the latest is not before the first.
      obtain ⟨next, hnext⟩ : ∃ next, (since ++ [first]).head? = some next := by
        cases since with
        | nil => exact ⟨first, rfl⟩
        | cons next since => exact ⟨next, rfl⟩
      have hfollows := hunbroken.1 next hnext
      exact (hearlier next (List.mem_of_head? hnext)).trans ⟨hfollows.2.2.1, hfollows.2.1⟩
    · exact hearlier observation hmem

/-- Since the observation of a sample, there was no break, and among those without
a break it was the first at its time. -/
def Since (observed : List Observation) (sample : Sample) : Prop :=
  ∃ since first before, observed = since ++ first :: before ∧ first.sample = sample ∧
    Unbroken (since ++ [first]) ∧
    ∀ prior ∈ before.head?, first.Follows prior → prior.now < first.now

variable {observed : List Observation} {observation : Observation}

theorem Since.cons {latest : Observation} {sample : Sample}
    (hsince : Since (latest :: observed) sample) (hfollows : observation.Follows latest) :
    Since (observation :: latest :: observed) sample := by
  obtain ⟨since, first, before, hsplit, hsample, hunbroken, hfirst⟩ := hsince
  refine ⟨observation :: since, first, before, by rw [hsplit]; rfl, hsample, ?_, hfirst⟩
  rw [List.cons_append, Unbroken, List.isChain_cons]
  refine ⟨fun next hnext => ?_, hunbroken⟩
  -- The next one is the latest, whether it is that of the sample or not.
  have hhead : (since ++ [first]).head? = some latest := by
    cases since with
    | nil => rw [(List.cons.inj hsplit).1]; rfl
    | cons head since => rw [(List.cons.inj hsplit).1]; rfl
  rw [hhead] at hnext
  cases hnext
  exact hfollows

/-- The counter of a sample bounds those of all that was observed from its time
on, as far back as there was no break. -/
theorem Since.before {later earlier : List Observation} {sample : Sample}
    (hsince : Since observed sample) (hobserved : observed = later ++ observation :: earlier)
    (hunbroken : Unbroken (later ++ [observation])) (htime : sample.timestamp ≤ observation.now) :
    sample.uploadedBytes ≤ observation.uploadedBytes := by
  obtain ⟨since, first, before, hsplit, rfl, hstretch, hfirst⟩ := hsince
  have hbefore := hstretch.before
  -- The observation is not before that of the sample, which was the first at its time.
  suffices hmem : observation ∈ since ++ [first] from (hbefore observation hmem).2
  rcases List.append_eq_append_iff.mp (hsplit.symm.trans hobserved) with
    ⟨mid, rfl, htail⟩ | ⟨mid, rfl, htail⟩
  · rcases mid with _ | ⟨head, mid⟩
    · cases htail
      exact List.mem_append_right _ List.mem_cons_self
    · cases htail
      rw [List.append_assoc] at hunbroken
      have htail := (List.isChain_append.mp hunbroken).2.1
      rw [List.cons_append, List.isChain_cons] at htail
      obtain ⟨next, hnext⟩ : ∃ next, (mid ++ [observation]).head? = some next := by
        cases mid with
        | nil => exact ⟨observation, rfl⟩
        | cons next mid => exact ⟨next, rfl⟩
      have hprior : (mid ++ observation :: earlier).head? = some next := by
        cases mid with
        | nil => exact hnext
        | cons other mid => exact hnext
      have hearlier := hfirst next hprior (htail.1 next hnext)
      have hnext := (Unbroken.before htail.2 next (List.mem_of_head? hnext)).1
      exact absurd (htime.trans hnext) hearlier.not_ge
  · rcases mid with _ | ⟨head, mid⟩
    · cases htail
      exact List.mem_append_right _ List.mem_cons_self
    · cases htail
      simp

/-! ## What the samples know -/

/-- Neighbouring samples: at least an hour apart, less than three, and with no
counter that falls. -/
def Sample.Next (first second : Sample) : Prop :=
  first.timestamp + hour ≤ second.timestamp ∧ second.timestamp < first.timestamp + 3 * hour ∧
    first.uploadedBytes ≤ second.uploadedBytes

/-- How a history relates to all that was observed, most recent first. -/
structure Tracks (latest : Observation) (past : List Observation) (history : TorrentHistory) :
    Prop where
  completed : history.completedAt = latest.completedAt
  last : history.lastObservation = latest.sample
  spaced : history.samples.IsChain Sample.Next
  /-- The last sample is less than an hour old. -/
  recent : ∃ sample, history.samples.getLast? = some sample ∧ sample.before latest.sample ∧
    latest.now < sample.timestamp + hour
  since : ∀ sample ∈ history.samples, Since (latest :: past) sample

section Samples

variable {samples : List Sample} {observation : Observation} {window : ℚ}

theorem hour_pos : 0 < hour := by norm_num [hour]

theorem Sample.Next.lt {first second : Sample} (hnext : first.Next second) :
    first.timestamp < second.timestamp :=
  lt_of_lt_of_le (lt_add_of_pos_right _ hour_pos) hnext.1

theorem sorted_of_spaced (hspaced : samples.IsChain Sample.Next) :
    samples.Pairwise fun first second => first.timestamp < second.timestamp := by
  have htimes : (samples.map Sample.timestamp).IsChain (· < ·) :=
    (List.isChain_map _).mpr (hspaced.imp fun first second hnext => hnext.lt)
  exact List.pairwise_map.mp htimes.pairwise

/-- What is kept of samples that the observation continues, or of none. -/
structure Continued (samples : List Sample) (observation : Observation) : Prop where
  spaced : samples.IsChain Sample.Next
  /-- The last sample is less than three hours old. -/
  recent : ∀ sample ∈ samples.getLast?, sample.before observation.sample ∧
    observation.now < sample.timestamp + 3 * hour

theorem Continued.trim (hcontinued : Continued samples observation) (start : ℚ) :
    Continued (trim Sample.timestamp start samples) observation := by
  have hsorted := sorted_of_spaced hcontinued.spaced
  refine ⟨hcontinued.spaced.suffix (trim_suffix hsorted), fun sample hsample => ?_⟩
  rw [getLast?_trim hsorted] at hsample
  exact hcontinued.recent sample hsample

/-- The kept samples are spaced, and the last is less than an hour old. -/
theorem retained_spaced (window : ℚ) (hcontinued : Continued samples observation) :
    (retainedSamples samples observation window).IsChain Sample.Next ∧
      ∃ sample, (retainedSamples samples observation window).getLast? = some sample ∧
        sample.before observation.sample ∧ observation.now < sample.timestamp + hour := by
  have htrim := hcontinued.trim (observation.now - window)
  rw [retainedSamples]
  split_ifs with hold
  · refine ⟨List.isChain_append.mpr ⟨htrim.spaced, List.isChain_singleton _, ?_⟩,
      observation.sample, List.getLast?_append_cons .., ⟨le_rfl, le_rfl⟩, ?_⟩
    · rintro last hlast next ⟨⟩
      obtain ⟨hbefore, hrecent⟩ := htrim.recent last hlast
      have hage := hold last hlast
      refine ⟨?_, hrecent, hbefore.2⟩
      change last.timestamp + hour ≤ observation.now
      linarith
    · change observation.now < observation.now + hour
      linarith [hour_pos]
  · push Not at hold
    obtain ⟨last, hlast, hage⟩ := hold
    exact ⟨htrim.spaced, last, hlast, (htrim.recent last hlast).1, by linarith⟩

/-- Behind the baseline, every kept sample is in the window. -/
theorem exists_inside (samples : List Sample) (observation : Observation) (hwindow : 0 < window) :
    ∃ inside,
    retainedSamples samples observation window =
      (baseline Sample.timestamp (observation.now - window) samples).toList ++ inside ∧
    ∀ sample ∈ inside, observation.now - window < sample.timestamp := by
  have hfilter : ∀ sample ∈ samples.filter (fun row => observation.now - window < row.timestamp),
      observation.now - window < sample.timestamp := by
    intro sample hmem
    simpa using (List.mem_filter.mp hmem).2
  rw [retainedSamples, trim]
  split
  · refine ⟨_, List.append_assoc .., fun sample hmem => ?_⟩
    rcases List.mem_append.mp hmem with hmem | hmem
    · exact hfilter sample hmem
    · rw [List.mem_singleton] at hmem
      rw [hmem]
      exact sub_lt_self _ hwindow
  · exact ⟨_, rfl, hfilter⟩

/-- There are few kept samples: those of the window, an hour apart, and one
before. -/
theorem length_retained_le (hwindow : 0 < window) (hcontinued : Continued samples observation) :
    ((retainedSamples samples observation window).length : ℚ) ≤ window / hour + 2 := by
  obtain ⟨inside, hkept, hinside⟩ := exists_inside samples observation hwindow
  obtain ⟨hspaced, last, hlast, hbefore, -⟩ := retained_spaced window hcontinued
  rw [hkept] at hspaced hlast ⊢
  have hcount : (inside.length : ℚ) * hour < window + hour := by
    by_cases hrows : inside = []
    · rw [hrows, List.length_nil, Nat.cast_zero, zero_mul]
      exact add_pos hwindow hour_pos
    · have hchain : inside.IsChain fun first second =>
          first.timestamp + hour ≤ second.timestamp :=
        (List.isChain_append.mp hspaced).2.1.imp fun first second hnext => hnext.1
      have htop : ∀ sample ∈ inside.getLast?, sample.timestamp ≤ observation.now := by
        intro sample hsample
        rw [List.getLast?_append, hsample, Option.some_or] at hlast
        cases hlast
        exact hbefore.1
      have hbound := length_mul_lt hchain
        (fun sample hsample => hinside sample (List.mem_of_head? hsample)) htop hrows
      linarith
  have hbase : ((baseline Sample.timestamp (observation.now - window) samples).toList.length : ℚ)
      ≤ 1 := by
    exact_mod_cast Option.length_toList_le
  rw [List.length_append, Nat.cast_add]
  rw [← lt_div_iff₀ hour_pos, add_div, div_self hour_pos.ne'] at hcount
  linarith

/-- The kept samples, with the observation last, do not fall. -/
theorem valid_retained (window : ℚ) (hcontinued : Continued samples observation) :
    (⟨observation.completedAt, retainedSamples samples observation window,
      observation.sample⟩ : TorrentHistory).Valid := by
  obtain ⟨hspaced, last, hlast, hbefore, -⟩ := retained_spaced window hcontinued
  constructor
  · intro hempty
    rw [show retainedSamples samples observation window = [] from hempty] at hlast
    cases hlast
  · refine List.isChain_append.mpr ⟨hspaced.imp fun first second hnext => ?_,
      List.isChain_singleton _, ?_⟩
    · exact ⟨hnext.lt.le, hnext.2.2⟩
    · rintro sample hsample next ⟨⟩
      cases hlast.symm.trans hsample
      exact hbefore

/-- A kept sample was a sample before, or is the new one and the last before it is
an hour old. -/
theorem mem_of_mem_retained {sample : Sample} (hcontinued : Continued samples observation)
    (hmem : sample ∈ retainedSamples samples observation window) :
    sample ∈ samples ∨ (sample = observation.sample ∧
      ∀ last ∈ samples.getLast?, last.timestamp + hour ≤ observation.now) := by
  have hsorted := sorted_of_spaced hcontinued.spaced
  have htrim : ∀ sample ∈ trim Sample.timestamp (observation.now - window) samples,
      sample ∈ samples := fun sample hmem => (trim_suffix hsorted).mem hmem
  rw [retainedSamples, getLast?_trim hsorted] at hmem
  split_ifs at hmem with hold
  · rcases List.mem_append.mp hmem with hmem | hmem
    · exact .inl (htrim sample hmem)
    · refine .inr ⟨List.mem_singleton.mp hmem, fun last hlast => ?_⟩
      linarith [hold last hlast]
  · exact .inl (htrim sample hmem)

/-- The baseline is kept. -/
theorem baseline_mem_retained {sample : Sample}
    (hbaseline : baseline Sample.timestamp (observation.now - window) samples = some sample) :
    sample ∈ retainedSamples samples observation window := by
  have htrim : sample ∈ trim Sample.timestamp (observation.now - window) samples := by
    rw [trim, hbaseline]
    exact List.mem_cons_self
  rw [retainedSamples]
  split
  · exact List.mem_append_left _ htrim
  · exact htrim

/-- The baseline is less than three hours before the window. -/
theorem baseline_recent {sample : Sample} (hwindow : 0 < window)
    (hcontinued : Continued samples observation)
    (hbaseline : baseline Sample.timestamp (observation.now - window) samples = some sample) :
    observation.now - window - 3 * hour < sample.timestamp := by
  have htrim := hcontinued.trim (observation.now - window)
  have hkept : trim Sample.timestamp (observation.now - window) samples = sample ::
      samples.filter (fun row => observation.now - window < row.timestamp) := by
    rw [trim, hbaseline]
    rfl
  have hinside := lt_of_trim hbaseline hkept
  rw [hkept] at htrim
  rcases hnewer : samples.filter (fun row => observation.now - window < row.timestamp) with
    _ | ⟨next, newer⟩
  · -- No sample is in the window, so the baseline is the last one.
    rw [hnewer] at htrim
    have hrecent := (htrim.recent sample rfl).2
    linarith
  · rw [hnewer] at htrim hinside
    have hnext := (List.isChain_cons_cons.mp htrim.spaced).1
    have hin := hinside next List.mem_cons_self
    linarith [hnext.2.1]

end Samples

/-! ## One call -/

section Call

variable {observation : Observation} {past : List Observation} {window : ℚ}

/-- What is remembered of all that was observed. -/
def Remembers : List Observation → Option TorrentHistory → Prop
  | [], previous => previous = none
  | latest :: past, previous => ∃ history, previous = some history ∧ Tracks latest past history

/-- The samples that a call starts from: those of the history if the observation
follows the latest, or none. -/
theorem continued_of_tracks {latest : Observation} {history : TorrentHistory}
    (htracks : Tracks latest past history) (observation : Observation) :
    (continued (some history) observation = [] ∧ ¬ observation.Follows latest) ∨
      (continued (some history) observation = history.samples ∧ observation.Follows latest) := by
  rw [continued, htracks.completed, htracks.last]
  split_ifs with hbreak
  · refine .inl ⟨rfl, fun ⟨hcompleted, hcounter, hclock, hgap⟩ => ?_⟩
    rcases hbreak with hchanged | hfell | hoff
    · exact hchanged hcompleted.symm
    · exact hfell.not_ge hcounter
    · exact hoff ⟨sub_nonneg.mpr hclock, hgap⟩
  · push Not at hbreak
    obtain ⟨hcompleted, hcounter, hclock, hgap⟩ := hbreak
    exact .inr ⟨rfl, hcompleted.symm, hcounter, sub_nonneg.mp hclock, hgap⟩

theorem continued_nil : Continued [] observation := ⟨List.isChain_nil, by simp⟩

variable {previous : Option TorrentHistory}

theorem Remembers.continued (hremembers : Remembers past previous) :
    Continued (continued previous observation) observation := by
  rcases past with _ | ⟨latest, past⟩
  · rw [show previous = none from hremembers]
    exact continued_nil
  · obtain ⟨history, rfl, htracks⟩ := hremembers
    rcases continued_of_tracks htracks observation with
      ⟨hnone, -⟩ | ⟨hsamples, hfollows⟩
    · rw [hnone]
      exact continued_nil
    · rw [hsamples]
      refine ⟨htracks.spaced, fun sample hsample => ?_⟩
      obtain ⟨last, hlast, hbefore, hrecent⟩ := htracks.recent
      cases hlast.symm.trans hsample
      obtain ⟨-, hcounter, hclock, hgap⟩ := hfollows
      exact ⟨hbefore.trans ⟨hclock, hcounter⟩, by linarith⟩

/-- Since each sample that is kept, there was no break. -/
theorem Remembers.since (hremembers : Remembers past previous) :
    ∀ sample ∈ retainedSamples (TorrentCleaner.continued previous observation) observation window,
      Since (observation :: past) sample := by
  intro sample hmem
  have hkept := mem_of_mem_retained hremembers.continued hmem
  rcases past with _ | ⟨latest, past⟩
  · rw [show previous = none from hremembers] at hkept
    rcases hkept with hmem | ⟨rfl, -⟩
    · cases hmem
    · exact ⟨[], observation, [], rfl, rfl, List.isChain_singleton _, by simp⟩
  · obtain ⟨history, rfl, htracks⟩ := hremembers
    rcases continued_of_tracks htracks observation with
      ⟨hnone, hbreak⟩ | ⟨hsamples, hfollows⟩
    · rw [hnone] at hkept
      rcases hkept with hmem | ⟨rfl, -⟩
      · cases hmem
      · refine ⟨[], observation, latest :: past, rfl, rfl, List.isChain_singleton _, ?_⟩
        rintro prior ⟨⟩ hfollows
        exact absurd hfollows hbreak
    · rw [hsamples] at hkept
      rcases hkept with hmem | ⟨rfl, hold⟩
      · exact (htracks.since sample hmem).cons hfollows
      · -- The last sample is an hour old now and was not at the latest observation.
        refine ⟨[], observation, latest :: past, rfl, rfl, List.isChain_singleton _, ?_⟩
        rintro prior ⟨⟩ -
        obtain ⟨last, hlast, -, hrecent⟩ := htracks.recent
        exact hrecent.trans_le (hold last hlast)

/-- A call that remembers succeeds, and the next one remembers too. -/
theorem observeUpload_of_remembers (hremembers : Remembers past previous)
    (observation : Observation) (window : ℚ) : ∃ history,
    history.samples =
      retainedSamples (continued previous observation) observation window ∧
    history.Valid ∧ Tracks observation past history ∧
    observeUpload previous observation window = some (history,
      (baseline Sample.timestamp (observation.now - window) (continued previous observation)).map
        fun sample => ((observation.uploadedBytes : ℚ) - sample.uploadedBytes) / window) := by
  have hcontinued : Continued (continued previous observation) observation :=
    hremembers.continued
  have hvalid := valid_retained window hcontinued
  obtain ⟨hspaced, hrecent⟩ := retained_spaced window hcontinued
  exact ⟨_, rfl, hvalid, ⟨rfl, rfl, hspaced, hrecent, hremembers.since⟩, if_pos hvalid⟩

end Call

/-! ## Every sequence of calls -/

theorem remembers_observeAll (window : ℚ) (past : List Observation) :
    ∃ previous, observeAll window past = some previous ∧ Remembers past previous := by
  induction past with
  | nil => exact ⟨none, rfl, rfl⟩
  | cons observation past ih =>
    obtain ⟨previous, hprevious, hremembers⟩ := ih
    obtain ⟨history, -, -, htracks, hcall⟩ :=
      observeUpload_of_remembers hremembers observation window
    refine ⟨some history, ?_, history, rfl, htracks⟩
    rw [observeAll, hprevious, Option.bind_some, hcall]
    rfl

/-- What one more call returns after some observations: samples an hour apart and
few of them, and a rate only if there was no break since a sample before the
window, which counts what was uploaded since then. -/
structure Faithful (window : ℚ) (past : List Observation) (observation : Observation)
    (history : TorrentHistory) (rate : Option ℚ) : Prop where
  valid : history.Valid
  apart : history.samples.IsChain fun first second => first.timestamp + hour ≤ second.timestamp
  few : (history.samples.length : ℚ) ≤ window / hour + 2
  unbroken : ∀ r, rate = some r → ∃ sample ∈ history.samples,
    observation.now - window - 3 * hour < sample.timestamp ∧
    sample.timestamp ≤ observation.now - window ∧
    ∃ since first before, observation :: past = since ++ first :: before ∧
      first.sample = sample ∧ Unbroken (since ++ [first])
  bounded : ∀ r, rate = some r → ∀ later seen earlier,
    observation :: past = later ++ seen :: earlier → Unbroken (later ++ [seen]) →
    observation.now - window ≤ seen.now →
    (observation.uploadedBytes : ℚ) - seen.uploadedBytes ≤ r * window

/-- However a torrent was observed, one more observation is recorded, its history
is valid and bounded, and its rate is never below what was uploaded over the
window without a break. -/
theorem observed_rate_faithful {window : ℚ} (hwindow : 0 < window) (past : List Observation) :
    ∃ previous, observeAll window past = some previous ∧ ∀ observation, ∃ history rate,
      observeUpload previous observation window = some (history, rate) ∧
      Faithful window past observation history rate := by
  obtain ⟨previous, hprevious, hremembers⟩ := remembers_observeAll window past
  refine ⟨previous, hprevious, fun observation => ?_⟩
  obtain ⟨history, hsamples, hvalid, htracks, hcall⟩ :=
    observeUpload_of_remembers hremembers observation window
  have hcontinued : Continued (continued previous observation) observation :=
    hremembers.continued
  -- a rate comes from a baseline, which is among the samples that are kept
  have hrate : ∀ r, (baseline Sample.timestamp (observation.now - window)
      (continued previous observation)).map (fun sample =>
        ((observation.uploadedBytes : ℚ) - sample.uploadedBytes) / window) = some r →
      ∃ sample ∈ history.samples, baseline Sample.timestamp (observation.now - window)
        (continued previous observation) = some sample ∧
        (observation.uploadedBytes : ℚ) - sample.uploadedBytes = r * window := by
    intro r hr
    obtain ⟨sample, hbaseline, rfl⟩ := Option.map_eq_some_iff.mp hr
    refine ⟨sample, ?_, hbaseline, (div_mul_cancel₀ _ hwindow.ne').symm⟩
    rw [hsamples]
    exact baseline_mem_retained hbaseline
  refine ⟨history, _, hcall, hvalid, htracks.spaced.imp fun _ _ hnext => hnext.1, ?_, ?_, ?_⟩
  · rw [hsamples]
    exact length_retained_le hwindow hcontinued
  · intro r hr
    obtain ⟨sample, hmem, hbaseline, -⟩ := hrate r hr
    obtain ⟨since, first, before, hsplit, hsample, hunbroken, -⟩ := htracks.since sample hmem
    exact ⟨sample, hmem, baseline_recent hwindow hcontinued hbaseline,
      (mem_of_baseline hbaseline).2, since, first, before, hsplit, hsample, hunbroken⟩
  -- the counter has not gone back since, so the baseline counts no more than `seen` does
  · intro r hr later seen earlier hsplit hunbroken htime
    obtain ⟨sample, hmem, hbaseline, hbytes⟩ := hrate r hr
    have hold := (mem_of_baseline hbaseline).2
    have hcounter : (sample.uploadedBytes : ℚ) ≤ seen.uploadedBytes := by
      exact_mod_cast (htracks.since sample hmem).before hsplit hunbroken (hold.trans htime)
    linarith

/-- An hour after the first observation, a rate over an hour is reported. -/
theorem first_hour_faithful : ∃ previous history, observeAll hour [⟨1, 0, 0⟩] = some previous ∧
    observeUpload previous ⟨1, 100, hour⟩ hour = some (history, some (100 / hour)) ∧
    Faithful hour [⟨1, 0, 0⟩] ⟨1, 100, hour⟩ history (some (100 / hour)) := by
  obtain ⟨previous, hprevious, hcall⟩ := observed_rate_faithful hour_pos [⟨1, 0, 0⟩]
  obtain ⟨history, rate, hobserve, hfaithful⟩ := hcall ⟨1, 100, hour⟩
  have hfirst : previous = some ⟨1, [⟨0, 0⟩], ⟨0, 0⟩⟩ :=
    Option.some.inj (hprevious.symm.trans (by decide +kernel))
  have hrate : rate = some (100 / hour) := by
    have hsecond : (observeUpload (some ⟨1, [⟨0, 0⟩], ⟨0, 0⟩⟩) ⟨1, 100, hour⟩ hour).map
        Prod.snd = some (some (100 / hour)) := by decide +kernel
    rw [← hfirst, hobserve] at hsecond
    exact Option.some.inj hsecond
  rw [hrate] at hobserve hfaithful
  exact ⟨previous, history, hprevious, hobserve, hfaithful⟩

/-- An hour passes after the clock was set back by one. What was uploaded since
the first observation is not counted, whose time is still in the window. -/
theorem reversed_clock_undercounts : ∃ window past observation previous history r,
    0 < window ∧ observeAll window past = some previous ∧
    observeUpload previous observation window = some (history, some r) ∧
    ∃ seen ∈ past, observation.now - window ≤ seen.now ∧
      r * window < (observation.uploadedBytes : ℚ) - seen.uploadedBytes := by
  refine ⟨hour, [⟨1, 100, 0⟩, ⟨1, 0, hour⟩], ⟨1, 100, hour⟩, some ⟨1, [⟨0, 100⟩], ⟨0, 100⟩⟩,
    ⟨1, [⟨0, 100⟩, ⟨hour, 100⟩], ⟨hour, 100⟩⟩, 0, hour_pos, ?_, ?_, ⟨1, 0, hour⟩, ?_, ?_, ?_⟩
  · decide +kernel
  · decide +kernel
  · exact List.mem_cons_of_mem _ List.mem_cons_self
  · exact sub_le_self _ hour_pos.le
  · norm_num

end NixConfig.TorrentCleaner
