/-
# Which parts can be joined

The controller's judgement of parts in a given order: that they are distinct
files of known size, in one container, with the same streams, and how long the
joined file must be. Every issue names the part it was found in, and the first
one found is reported.

Sizes and durations are `int64` values and are added with the source's own
guards; an issue is reported where the next addition would leave the range.
-/

import Mathlib.Data.List.Sort
import NixConfig.Data.Int64
import NixConfig.MediaRepair.Controller

namespace NixConfig.MediaRepair.Controller

open Data Semantics

/-! ## Containers -/

inductive InputContainer | mpegts | mp4 | matroska | avi
  deriving DecidableEq, Repr

def InputContainer.text : InputContainer → Text
  | .mpegts => bytes "mpegts"
  | .mp4 => bytes "mp4"
  | .matroska => bytes "matroska"
  | .avi => bytes "avi"

inductive InputContainerStatus | confirmed | incompatible | unknown
  deriving DecidableEq, Repr

inductive InputContainerIssueReason
  | tooFewParts | unsupportedExtension | mixedExtensions | missingProbeFormat | probeFormatMismatch
  deriving DecidableEq, Repr

structure InputContainerObservation where
  extension : Option MediaExtension
  formatNames : List Text

structure InputContainerIssue where
  reason : InputContainerIssueReason
  partPosition : Option Nat
  deriving DecidableEq, Repr

structure InputContainerAssessment where
  status : InputContainerStatus
  container : Option InputContainer
  issue : Option InputContainerIssue
  deriving DecidableEq, Repr

/-- M2TS files are probed, but not joined. -/
def containerForExtension : Option MediaExtension → Option InputContainer
  | some .ts => some .mpegts
  | some .m2ts => none
  | some .mp4 => some .mp4
  | some .mkv => some .matroska
  | some .avi => some .avi
  | none => none

def inputContainerFailure (status : InputContainerStatus) (reason : InputContainerIssueReason)
    (position : Option Nat) : InputContainerAssessment :=
  ⟨status, none, some ⟨reason, position⟩⟩

/-- The loop of `AssessInputContainer`, from a position on. -/
def assessInputContainerFrom (want : InputContainer) (position : Nat) (missingFormat : Option Nat) :
    List InputContainerObservation → InputContainerAssessment
  | [] =>
    match missingFormat with
    | some first => inputContainerFailure .unknown .missingProbeFormat (some first)
    | none => ⟨.confirmed, some want, none⟩
  | observation :: rest =>
    match containerForExtension observation.extension with
    | none => inputContainerFailure .incompatible .unsupportedExtension (some position)
    | some container =>
      if container ≠ want then inputContainerFailure .incompatible .mixedExtensions (some position)
      else if observation.formatNames.isEmpty then
        -- A part without a format only leaves the container unknown: a later
        -- part may still contradict it.
        assessInputContainerFrom want (position + 1) (missingFormat <|> some position) rest
      else if !observation.formatNames.contains want.text then
        inputContainerFailure .incompatible .probeFormatMismatch (some position)
      else assessInputContainerFrom want (position + 1) missingFormat rest

def assessInputContainer (observations : List InputContainerObservation) :
    InputContainerAssessment :=
  match observations with
  | first :: _ :: _ =>
    match containerForExtension first.extension with
    | none => inputContainerFailure .incompatible .unsupportedExtension (some 0)
    | some want => assessInputContainerFrom want 0 none observations
  | _ => inputContainerFailure .unknown .tooFewParts none

inductive OutputContainer | mp4 | mkv | avi
  deriving DecidableEq, Repr

inductive OutputContainerIssueReason
  | inputUnconfirmed | crossContainerPolicyUndefined
  deriving DecidableEq, Repr

structure OutputContainerAssessment where
  container : Option OutputContainer
  issue : Option OutputContainerIssueReason
  deriving DecidableEq, Repr

def selectOutputContainer (input : InputContainerAssessment) : OutputContainerAssessment :=
  if input.status ≠ .confirmed ∨ input.issue.isSome then ⟨none, some .inputUnconfirmed⟩
  else
    match input.container with
    | none => ⟨none, some .inputUnconfirmed⟩
    | some .mp4 => ⟨some .mp4, none⟩
    | some .matroska => ⟨some .mkv, none⟩
    | some .avi => ⟨some .avi, none⟩
    | some .mpegts => ⟨none, some .crossContainerPolicyUndefined⟩

/-! ## Streams -/

inductive StreamCompatibility | compatible | incompatible | unknown
  deriving DecidableEq, Repr

inductive StreamCompatibilityReason
  | tooFewParts | missingProbe | missingVideo | streamCountMismatch | missingMetadata
  | layoutMismatch
  deriving DecidableEq, Repr

inductive StreamCompatibilityField
  | kind | codecName | profile | timeBase | width | height | pixelFormat | averageFrameRate
  | sampleFormat | sampleRate | channels | channelLayout
  deriving DecidableEq, Repr

structure StreamCompatibilityIssue where
  reason : StreamCompatibilityReason
  partPosition : Option Nat
  streamPosition : Option Nat
  field : Option StreamCompatibilityField
  deriving DecidableEq, Repr

structure VideoStreamLayout where
  width : Int
  height : Int
  pixelFormat : Text
  averageRate : Rational

structure AudioStreamLayout where
  sampleFormat : Text
  sampleRateHz : Int
  channels : Int
  channelLayout : Text

structure StreamLayoutEntry where
  kind : Text
  codecName : Text
  profile : Option Text
  timeBase : Rational
  video : Option VideoStreamLayout
  audio : Option AudioStreamLayout

structure StreamLayout where
  streams : List StreamLayoutEntry

structure StreamCompatibilityAssessment where
  compatibility : StreamCompatibility
  issue : Option StreamCompatibilityIssue
  layout : Option StreamLayout

/-- `slices.SortFunc` by index. It does not promise an order of equal indices. -/
structure StreamSort where
  sort : List ProbeStream → List ProbeStream
  perm : ∀ streams, (sort streams).Perm streams
  sorted : ∀ streams, (sort streams).Pairwise (·.index ≤ ·.index)

theorem pairwise_index (streams : List ProbeStream) :
    (streams.insertionSort (·.index ≤ ·.index)).Pairwise (·.index ≤ ·.index) := by
  have : Std.Total (α := ProbeStream) (·.index ≤ ·.index) := ⟨fun _ _ => le_total _ _⟩
  have : IsTrans ProbeStream (·.index ≤ ·.index) := ⟨fun _ _ _ => le_trans⟩
  exact List.pairwise_insertionSort _ streams

/-- Insertion sort by index. -/
def insertionSorting : StreamSort where
  sort streams := streams.insertionSort (·.index ≤ ·.index)
  perm := List.perm_insertionSort _
  sorted := pairwise_index

def videoKind : Text := bytes "video"

def audioKind : Text := bytes "audio"

/-- Whether there is a video stream, and whether a stream of no kind comes
before it. -/
def videoPresence : List ProbeStream → Bool × Bool
  | [] => (false, false)
  | stream :: rest =>
    if stream.kind = some videoKind then (true, false)
    else
      let (hasVideo, hasUnknownKind) := videoPresence rest
      (hasVideo, stream.kind.isNone || hasUnknownKind)

structure StreamComparison where
  missing : Option StreamCompatibilityField := none
  missingReference : Bool := false
  mismatch : Option StreamCompatibilityField := none

def compareRequiredField {α : Type} [DecidableEq α] (field : StreamCompatibilityField)
    (reference candidate : Option α) (comparison : StreamComparison) : StreamComparison :=
  match reference, candidate with
  | some expected, some found =>
    if expected ≠ found ∧ comparison.mismatch.isNone then { comparison with mismatch := some field }
    else comparison
  | reference, _ =>
    if comparison.missing.isNone then
      { comparison with missing := some field, missingReference := reference.isNone }
    else comparison

def compareOptionalField {α : Type} [DecidableEq α] (field : StreamCompatibilityField)
    (reference candidate : Option α) (comparison : StreamComparison) : StreamComparison :=
  if reference.isNone ∧ candidate.isNone then comparison
  else compareRequiredField field reference candidate comparison

/-- The fields of every kind of stream. Timestamp units may differ; only missing
ones are compared. -/
def compareCommonFields (reference candidate : ProbeStream) : StreamComparison :=
  let common := compareOptionalField .profile reference.profile candidate.profile <|
    compareRequiredField .codecName reference.codecName candidate.codecName <|
    compareRequiredField .kind reference.kind candidate.kind {}
  if reference.timeBase.isNone ∨ candidate.timeBase.isNone then
    compareRequiredField .timeBase reference.timeBase candidate.timeBase common
  else common

def compareStreams (reference candidate : ProbeStream) : StreamComparison :=
  let common := compareCommonFields reference candidate
  if reference.kind ≠ candidate.kind then common
  else if reference.kind = some videoKind then
    compareRequiredField .averageFrameRate reference.averageRate candidate.averageRate <|
    compareRequiredField .pixelFormat reference.pixelFormat candidate.pixelFormat <|
    compareRequiredField .height reference.height candidate.height <|
    compareRequiredField .width reference.width candidate.width common
  else if reference.kind = some audioKind then
    compareRequiredField .channelLayout reference.channelLayout candidate.channelLayout <|
    compareRequiredField .channels reference.channels candidate.channels <|
    compareRequiredField .sampleRate reference.sampleRateHz candidate.sampleRateHz <|
    compareRequiredField .sampleFormat reference.sampleFormat candidate.sampleFormat common
  else common

section Streams

variable (sorting : StreamSort)

/-- What `AssessStreamCompatibility` gathers of the parts before it compares
them. -/
structure StreamScan where
  streams : List (List ProbeStream)
  firstUnknown : Option StreamCompatibilityIssue
  reference : Option (Nat × List ProbeStream)

/-- The first loop: order the streams of each part, and find the reference. An
error is the issue that makes the parts incompatible. -/
def scanStreamsFrom (position : Nat) (firstUnknown : Option StreamCompatibilityIssue)
    (reference : Option (Nat × List ProbeStream)) :
    List ProbeEvidence → Except StreamCompatibilityIssue StreamScan
  | [] => .ok ⟨[], firstUnknown, reference⟩
  | probe :: rest =>
    if probe.streams.isEmpty then do
      let unknown := firstUnknown <|> some ⟨.missingProbe, some position, none, none⟩
      let scan ← scanStreamsFrom (position + 1) unknown reference rest
      pure { scan with streams := [] :: scan.streams }
    else
      let ordered := sorting.sort probe.streams
      let (hasVideo, hasUnknownKind) := videoPresence ordered
      if !hasVideo && !hasUnknownKind then
        .error ⟨.missingVideo, some position, none, some .kind⟩
      else do
        let unknown :=
          if !hasVideo then
            firstUnknown <|> some ⟨.missingMetadata, some position, none, some .kind⟩
          else firstUnknown
        let scan ← scanStreamsFrom (position + 1) unknown
          (reference <|> some (position, ordered)) rest
        pure { scan with streams := ordered :: scan.streams }

/-- The streams of one part against those of the reference, from a position on. -/
def compareStreamsFrom (referencePosition partPosition streamPosition : Nat)
    (firstUnknown : Option StreamCompatibilityIssue) :
    List (ProbeStream × ProbeStream) →
      Except StreamCompatibilityIssue (Option StreamCompatibilityIssue)
  | [] => .ok firstUnknown
  | (expected, found) :: rest =>
    let comparison := compareStreams expected found
    match comparison.mismatch with
    | some field =>
      .error ⟨.layoutMismatch, some partPosition, some streamPosition, some field⟩
    | none =>
      let unknown :=
        match comparison.missing with
        | none => firstUnknown
        | some field =>
          let missingPart := if comparison.missingReference then referencePosition else partPosition
          firstUnknown <|>
            some ⟨.missingMetadata, some missingPart, some streamPosition, some field⟩
      compareStreamsFrom referencePosition partPosition (streamPosition + 1) unknown rest

/-- The second loop: every other part with streams against the reference. -/
def comparePartsFrom (referencePosition : Nat) (reference : List ProbeStream) (position : Nat)
    (firstUnknown : Option StreamCompatibilityIssue) :
    List (List ProbeStream) → Except StreamCompatibilityIssue (Option StreamCompatibilityIssue)
  | [] => .ok firstUnknown
  | streams :: rest =>
    if position = referencePosition ∨ streams.isEmpty then
      comparePartsFrom referencePosition reference (position + 1) firstUnknown rest
    else if streams.length ≠ reference.length then
      .error ⟨.streamCountMismatch, some position, none, none⟩
    else do
      let unknown ← compareStreamsFrom referencePosition position 0 firstUnknown
        (reference.zip streams)
      comparePartsFrom referencePosition reference (position + 1) unknown rest

/-- One entry of `layoutFromStreams`; `none` where the source would follow a nil
pointer. -/
def layoutEntry (stream : ProbeStream) : Option StreamLayoutEntry := do
  let kind ← stream.kind
  let codecName ← stream.codecName
  let timeBase ← stream.timeBase
  let entry : StreamLayoutEntry := ⟨kind, codecName, stream.profile, timeBase, none, none⟩
  if kind = videoKind then do
    let video : VideoStreamLayout :=
      ⟨← stream.width, ← stream.height, ← stream.pixelFormat, ← stream.averageRate⟩
    pure { entry with video := some video }
  else if kind = audioKind then do
    let audio : AudioStreamLayout :=
      ⟨← stream.sampleFormat, ← stream.sampleRateHz, ← stream.channels, ← stream.channelLayout⟩
    pure { entry with audio := some audio }
  else pure entry

def layoutFromStreams (streams : List ProbeStream) : Option StreamLayout :=
  StreamLayout.mk <$> streams.mapM layoutEntry

def assessStreamCompatibility (probes : List ProbeEvidence) : StreamCompatibilityAssessment :=
  if probes.length < 2 then ⟨.unknown, some ⟨.tooFewParts, none, none, none⟩, none⟩
  else
    match scanStreamsFrom sorting 0 none none probes with
    | .error issue => ⟨.incompatible, some issue, none⟩
    | .ok scan =>
      match scan.reference with
      | none => ⟨.unknown, scan.firstUnknown, none⟩
      | some (referencePosition, reference) =>
        match comparePartsFrom referencePosition reference 0 scan.firstUnknown scan.streams with
        | .error issue => ⟨.incompatible, some issue, none⟩
        | .ok (some unknown) => ⟨.unknown, some unknown, none⟩
        | .ok none => ⟨.compatible, none, layoutFromStreams reference⟩

end Streams

/-! ## Duration -/

def joinMuxToleranceMS : Int := 1000

inductive JoinDurationIssueReason | tooFewParts | missing | conflict | overflow
  deriving DecidableEq, Repr

structure JoinDurationIssue where
  reason : JoinDurationIssueReason
  partPosition : Option Nat
  deriving DecidableEq, Repr

structure JoinDurationAssessment where
  parts : List ProbeDurationAssessment
  expectedMS : Option Int
  toleranceMS : Option Int
  issue : Option JoinDurationIssue

def absoluteDifference (left right : Int) : Int :=
  if left < right then subInt64 right left else subInt64 left right

/-- How far a part's real duration may be from its effective one. -/
def partToleranceMS (part : ProbeDurationAssessment) : Int :=
  match part.formatMS, part.longestStreamMS with
  | some format, some stream => absoluteDifference format stream
  | _, _ => durationAgreementToleranceMS

theorem pos_of_usableDuration {duration : Option Int} {value : Int}
    (husable : usableDuration duration = some value) : 0 < value := by
  obtain ⟨-, hpos⟩ := Option.filter_eq_some_iff.mp husable
  exact of_decide_eq_true hpos

/-- The longest duration is a usable duration of one of the streams. -/
theorem longestAVStreamDuration_eq_some {streams : List ProbeStream} {value : Int}
    (hlongest : longestAVStreamDuration streams = some value) :
    ∃ stream ∈ streams, usableDuration stream.durationMS = some value := by
  -- What the loop ends with, it started with or found in a stream.
  suffices hfold : ∀ longest : Option Int, streams.foldl _ longest = some value →
      longest = some value ∨ ∃ stream ∈ streams, usableDuration stream.durationMS = some value by
    exact (hfold none hlongest).resolve_left (by simp)
  clear hlongest
  induction streams with
  | nil => exact fun longest hlast => .inl hlast
  | cons stream streams ih =>
    intro longest hlast
    rcases ih _ hlast with hfirst | ⟨later, hlater, husable⟩
    · beta_reduce at hfirst
      have hhere : usableDuration stream.durationMS = some value →
          ∃ other ∈ stream :: streams, usableDuration other.durationMS = some value :=
        fun husable => ⟨stream, List.mem_cons_self, husable⟩
      split at hfirst
      · split at hfirst
        · rename_i duration best husable
          split at hfirst
          · exact .inr (hhere (husable.trans hfirst))
          · exact .inl hfirst
        · rename_i duration husable
          exact .inr (hhere (husable.trans hfirst))
        · exact .inl hfirst
      · exact .inl hfirst
    · exact .inr ⟨later, List.mem_cons_of_mem _ hlater, husable⟩

theorem pos_of_longestAVStreamDuration {streams : List ProbeStream} {value : Int}
    (hlongest : longestAVStreamDuration streams = some value) : 0 < value := by
  obtain ⟨stream, -, husable⟩ := longestAVStreamDuration_eq_some hlongest
  exact pos_of_usableDuration husable

/-- A probe whose durations are values that an `int64` can have. -/
def ProbeEvidence.IsInt64 (evidence : ProbeEvidence) : Prop :=
  (∀ duration, evidence.format.durationMS = some duration → Data.IsInt64 duration) ∧
    ∀ stream ∈ evidence.streams, ∀ duration, stream.durationMS = some duration →
      Data.IsInt64 duration

/-- `AssessProbeDuration` with the subtraction of a signed word. -/
def assessProbeDurationInt64 (evidence : ProbeEvidence) : ProbeDurationAssessment :=
  let formatMS := usableDuration evidence.format.durationMS
  let streamMS := longestAVStreamDuration evidence.streams
  match formatMS, streamMS with
  | none, none => ⟨formatMS, streamMS, none, .unknown, false⟩
  | some duration, none => ⟨formatMS, streamMS, some duration, .format, false⟩
  | none, some duration => ⟨formatMS, streamMS, some duration, .longestStream, false⟩
  | some format, some stream =>
    if subInt64 (max format stream) (min format stream) > durationAgreementToleranceMS then
      ⟨formatMS, streamMS, none, .unknown, true⟩
    else ⟨formatMS, streamMS, some (max format stream), .consistentFormatAndStream, false⟩

variable {evidence : ProbeEvidence} {probes : List ProbeEvidence} {position : Nat} {total : Int}

/-- That subtraction never wraps: both durations are positive. -/
theorem assessProbeDurationInt64_eq (hevidence : evidence.IsInt64) :
    assessProbeDurationInt64 evidence = assessProbeDuration evidence := by
  rcases hformat : usableDuration evidence.format.durationMS with _ | format <;>
    rcases hstream : longestAVStreamDuration evidence.streams with _ | stream
  · simp only [assessProbeDurationInt64, assessProbeDuration, hformat, hstream]
  · simp only [assessProbeDurationInt64, assessProbeDuration, hformat, hstream]
  · simp only [assessProbeDurationInt64, assessProbeDuration, hformat, hstream]
  · have hformatPos := pos_of_usableDuration hformat
    have hformatMax := (hevidence.1 format (Option.filter_eq_some_iff.mp hformat).1).2
    obtain ⟨longest, hlongest, husable⟩ := longestAVStreamDuration_eq_some hstream
    have hstreamPos := pos_of_usableDuration husable
    have hstreamMax :=
      (hevidence.2 longest hlongest stream (Option.filter_eq_some_iff.mp husable).1).2
    have hexact : subInt64 (max format stream) (min format stream) =
        max format stream - min format stream :=
      subInt64_of_nonneg (by omega) (by omega) (by omega) (by omega)
    simp only [assessProbeDurationInt64, assessProbeDuration, hformat, hstream, hexact]

/-- A part's tolerance, computed without a bound. -/
def exactToleranceMS (part : ProbeDurationAssessment) : Int :=
  match part.formatMS, part.longestStreamMS with
  | some format, some stream => max format stream - min format stream
  | _, _ => durationAgreementToleranceMS

theorem absoluteDifference_of_close {left right : Int}
    (hclose : ¬ max left right - min left right > durationAgreementToleranceMS) :
    absoluteDifference left right = max left right - min left right := by
  unfold durationAgreementToleranceMS at hclose
  unfold absoluteDifference
  split
  · have hrange : IsInt64 (right - left) := ⟨by omega, by unfold maxInt64; omega⟩
    rw [subInt64, int64_of_isInt64 hrange]
    omega
  · have hrange : IsInt64 (left - right) := ⟨by omega, by unfold maxInt64; omega⟩
    rw [subInt64, int64_of_isInt64 hrange]
    omega

/-- The duration of a probe without conflict is positive, and its tolerance is
computed without wrapping, whatever values the probe has. -/
theorem assessProbeDuration_spec (hconflict : (assessProbeDuration evidence).conflict = false) :
    (∀ effective, (assessProbeDuration evidence).effectiveMS = some effective → 0 < effective) ∧
      partToleranceMS (assessProbeDuration evidence) =
        exactToleranceMS (assessProbeDuration evidence) ∧
      0 ≤ exactToleranceMS (assessProbeDuration evidence) := by
  have htolerance : 0 ≤ durationAgreementToleranceMS := by decide
  rcases hformat : usableDuration evidence.format.durationMS with _ | format <;>
    rcases hstream : longestAVStreamDuration evidence.streams with _ | stream
  · simp [assessProbeDuration, partToleranceMS, exactToleranceMS, hformat, hstream, htolerance]
  · have hpos := pos_of_longestAVStreamDuration hstream
    simp [assessProbeDuration, partToleranceMS, exactToleranceMS, hformat, hstream, htolerance,
      hpos]
  · have hpos := pos_of_usableDuration hformat
    simp [assessProbeDuration, partToleranceMS, exactToleranceMS, hformat, hstream, htolerance,
      hpos]
  · have hpos := pos_of_usableDuration hformat
    simp only [assessProbeDuration, hformat, hstream] at hconflict ⊢
    split_ifs at hconflict with hclose
    simp only [if_neg hclose, partToleranceMS, exactToleranceMS]
    refine ⟨?_, absoluteDifference_of_close hclose, by omega⟩
    rintro effective ⟨⟩
    omega

/-- The loop of `AssessJoinDuration`, from a position on. -/
def sumDurationsFrom (position : Nat) (expected tolerance : Int) :
    List ProbeDurationAssessment → Except JoinDurationIssue (Int × Int)
  | [] => .ok (expected, tolerance)
  | part :: rest =>
    if part.conflict then .error ⟨.conflict, some position⟩
    else
      match part.effectiveMS with
      | none => .error ⟨.missing, some position⟩
      | some effective =>
        match guardedAdd expected effective with
        | none => .error ⟨.overflow, some position⟩
        | some expected =>
          match guardedAdd tolerance (partToleranceMS part) with
          | none => .error ⟨.overflow, some position⟩
          | some tolerance => sumDurationsFrom (position + 1) expected tolerance rest

/-- The sums of the loop are exact and in range, whatever the probes say. -/
theorem sumDurationsFrom_eq_ok {expected tolerance expected' tolerance' : Int}
    (hexpected : 0 ≤ expected) (hexpectedMax : expected ≤ maxInt64) (htolerance : 0 ≤ tolerance)
    (htoleranceMax : tolerance ≤ maxInt64)
    (hsum : sumDurationsFrom position expected tolerance (probes.map assessProbeDuration) =
      .ok (expected', tolerance')) :
    (∃ durations : List Int,
      probes.map (fun probe => (assessProbeDuration probe).effectiveMS) = durations.map some ∧
        expected' = expected + durations.sum) ∧
      tolerance' = tolerance +
        (probes.map fun probe => exactToleranceMS (assessProbeDuration probe)).sum ∧
      expected' ≤ maxInt64 ∧ tolerance' ≤ maxInt64 := by
  induction probes generalizing position expected tolerance with
  | nil =>
    cases hsum
    exact ⟨⟨[], rfl, by simp⟩, by simp, hexpectedMax, htoleranceMax⟩
  | cons probe probes ih =>
    rw [List.map_cons, sumDurationsFrom] at hsum
    split_ifs at hsum with hconflict
    obtain ⟨hpos, hexact, hnonneg⟩ := assessProbeDuration_spec (Bool.eq_false_iff.mpr hconflict)
    split at hsum
    · cases hsum
    rename_i effective heffective
    split at hsum
    · cases hsum
    rename_i sum hadd
    split at hsum
    · cases hsum
    rename_i slack haddSlack
    rw [hexact] at haddSlack
    -- Both guarded additions of this part are exact, and the rest of the loop
    -- starts from totals in range again.
    have hduration := hpos effective heffective
    obtain ⟨rfl, hsumMax⟩ := guardedAdd_eq_some hexpected hexpectedMax (by omega) hadd
    obtain ⟨rfl, hslackMax⟩ := guardedAdd_eq_some htolerance htoleranceMax hnonneg haddSlack
    obtain ⟨⟨durations, hdurations, hexpected'⟩, htolerance', hmax⟩ :=
      ih (by omega) hsumMax (by omega) hslackMax hsum
    refine ⟨⟨effective :: durations, ?_, ?_⟩, ?_, hmax⟩
    · rw [List.map_cons, List.map_cons, heffective, hdurations]
    · rw [List.sum_cons, hexpected', Int.add_assoc]
    · rw [List.map_cons, List.sum_cons, htolerance', Int.add_assoc]

def assessJoinDuration (probes : List ProbeEvidence) : JoinDurationAssessment :=
  let parts := probes.map assessProbeDuration
  if probes.length < 2 then ⟨parts, none, none, some ⟨.tooFewParts, none⟩⟩
  else
    match sumDurationsFrom 0 0 joinMuxToleranceMS parts with
    | .error issue => ⟨parts, none, none, some issue⟩
    | .ok (expected, tolerance) => ⟨parts, some expected, some tolerance, none⟩

/-! ## Feasibility -/

inductive ProbeCoverage | none | partialParts | complete
  deriving DecidableEq, Repr

inductive JoinStructureIssueReason
  | tooFewParts | missingFileID | duplicateFileID | invalidSourceSize | sourceSizeOverflow
  deriving DecidableEq, Repr

structure JoinStructureIssue where
  reason : JoinStructureIssueReason
  partPosition : Option Nat
  deriving DecidableEq, Repr

structure JoinPartEvidence where
  fileID : FileID
  extension : Option MediaExtension
  fingerprint : FileFingerprint
  probe : Option ProbeEvidence

structure JoinFeasibilityAssessment where
  fileIDs : List FileID
  probeCoverage : ProbeCoverage
  sourceBytes : Option Int
  duration : JoinDurationAssessment
  streams : StreamCompatibilityAssessment
  inputContainer : InputContainerAssessment
  outputContainer : OutputContainerAssessment
  structuralIssue : Option JoinStructureIssue

def JoinFeasibilityAssessment.eligible (assessment : JoinFeasibilityAssessment) : Bool :=
  assessment.structuralIssue.isNone && assessment.probeCoverage == .complete &&
    assessment.sourceBytes.isSome && assessment.duration.issue.isNone &&
    assessment.duration.expectedMS.isSome && assessment.duration.toleranceMS.isSome &&
    assessment.streams.compatibility == .compatible && assessment.streams.issue.isNone &&
    assessment.streams.layout.isSome && assessment.inputContainer.status == .confirmed &&
    assessment.inputContainer.container.isSome && assessment.inputContainer.issue.isNone &&
    assessment.outputContainer.container.isSome && assessment.outputContainer.issue.isNone

def probeCoverage (parts probed : Nat) : ProbeCoverage :=
  if probed = 0 then .none else if probed = parts then .complete else .partialParts

/-- The loop of `assessJoinStructure`, from a position on. -/
def sumSizesFrom (position : Nat) (seen : List FileID) (total : Int) :
    List JoinPartEvidence → Except JoinStructureIssue Int
  | [] => .ok total
  | part :: rest =>
    if part.fileID = [] then .error ⟨.missingFileID, some position⟩
    else if part.fileID ∈ seen then .error ⟨.duplicateFileID, some position⟩
    else if part.fingerprint.sizeBytes ≤ 0 then .error ⟨.invalidSourceSize, some position⟩
    else
      match guardedAdd total part.fingerprint.sizeBytes with
      | none => .error ⟨.sourceSizeOverflow, some position⟩
      | some total => sumSizesFrom (position + 1) (part.fileID :: seen) total rest

variable {parts : List JoinPartEvidence}

/-- The total of the loop is exact and in range, and its parts are distinct. -/
theorem sumSizesFrom_eq_ok {seen : List FileID} {total' : Int} (htotal : 0 ≤ total)
    (hmax : total ≤ maxInt64) (hsum : sumSizesFrom position seen total parts = .ok total') :
    total' = total + (parts.map fun part => part.fingerprint.sizeBytes).sum ∧ total' ≤ maxInt64 ∧
      (∀ part ∈ parts, part.fileID ∉ seen) ∧ (parts.map JoinPartEvidence.fileID).Nodup := by
  induction parts generalizing position seen total with
  | nil =>
    cases hsum
    exact ⟨by simp, hmax, by simp, List.nodup_nil⟩
  | cons part parts ih =>
    rw [sumSizesFrom] at hsum
    split_ifs at hsum with _ hfresh hsize
    split at hsum
    · cases hsum
    rename_i sum hadd
    obtain ⟨rfl, hsumMax⟩ := guardedAdd_eq_some htotal hmax (by omega) hadd
    obtain ⟨htotal', hmax', hunseen, hdistinct⟩ := ih (by omega) hsumMax hsum
    refine ⟨?_, hmax', ?_, ?_⟩
    · rw [List.map_cons, List.sum_cons, htotal', Int.add_assoc]
    · refine List.forall_mem_cons.mpr ⟨hfresh, fun later hlater hseen => ?_⟩
      exact hunseen later hlater (List.mem_cons_of_mem _ hseen)
    · refine List.nodup_cons.mpr ⟨fun hmem => ?_, hdistinct⟩
      obtain ⟨later, hlater, hsame⟩ := List.mem_map.mp hmem
      exact hunseen later hlater (hsame ▸ List.mem_cons_self)

def assessJoinStructure (parts : List JoinPartEvidence) : Except JoinStructureIssue Int :=
  if parts.length < 2 then .error ⟨.tooFewParts, none⟩ else sumSizesFrom 0 [] 0 parts

/-- An empty probe stands for a part without one. -/
def JoinPartEvidence.probeOrEmpty (part : JoinPartEvidence) : ProbeEvidence :=
  part.probe.getD ⟨⟨[], none, none, none⟩, []⟩

def assessJoinFeasibility (sorting : StreamSort) (parts : List JoinPartEvidence) :
    JoinFeasibilityAssessment :=
  let probes := parts.map JoinPartEvidence.probeOrEmpty
  let inputContainer := assessInputContainer <| parts.map fun part =>
    ⟨part.extension, part.probeOrEmpty.format.names⟩
  let total := assessJoinStructure parts
  { fileIDs := parts.map JoinPartEvidence.fileID
    probeCoverage := probeCoverage parts.length (parts.countP fun part => part.probe.isSome)
    sourceBytes := total.toOption
    duration := assessJoinDuration probes
    streams := assessStreamCompatibility sorting probes
    inputContainer := inputContainer
    outputContainer := selectOutputContainer inputContainer
    structuralIssue := match total with
      | .ok _ => none
      | .error issue => some issue }

/-- What the figures of an eligible join are. -/
structure JoinFeasibilityAssessment.Exact (assessment : JoinFeasibilityAssessment)
    (parts : List JoinPartEvidence) : Prop where
  two : 2 ≤ parts.length
  distinct : (parts.map JoinPartEvidence.fileID).Nodup
  probed : ∀ part ∈ parts, part.probe.isSome
  sourceBytes : assessment.sourceBytes =
    some (parts.map fun part => part.fingerprint.sizeBytes).sum
  expectedMS : ∃ durations : List Int,
    parts.map (fun part => (assessProbeDuration part.probeOrEmpty).effectiveMS) =
      durations.map some ∧ assessment.duration.expectedMS = some durations.sum
  toleranceMS : assessment.duration.toleranceMS = some (joinMuxToleranceMS +
    (parts.map fun part => exactToleranceMS (assessProbeDuration part.probeOrEmpty)).sum)

theorem assessJoinStructure_eq_ok (htotal : assessJoinStructure parts = .ok total) :
    2 ≤ parts.length ∧ total = (parts.map fun part => part.fingerprint.sizeBytes).sum ∧
      (parts.map JoinPartEvidence.fileID).Nodup := by
  unfold assessJoinStructure at htotal
  split_ifs at htotal with hmany
  obtain ⟨hsum, -, -, hdistinct⟩ := sumSizesFrom_eq_ok (Int.le_refl 0) (by decide) htotal
  exact ⟨by omega, by omega, hdistinct⟩

theorem assessJoinDuration_isSome (hsome : (assessJoinDuration probes).expectedMS.isSome) :
    (∃ durations : List Int,
      probes.map (fun probe => (assessProbeDuration probe).effectiveMS) = durations.map some ∧
        (assessJoinDuration probes).expectedMS = some durations.sum) ∧
      (assessJoinDuration probes).toleranceMS = some (joinMuxToleranceMS +
        (probes.map fun probe => exactToleranceMS (assessProbeDuration probe)).sum) := by
  unfold assessJoinDuration at hsome ⊢
  dsimp only at hsome ⊢
  split at hsome
  · cases hsome
  rename_i hmany
  rw [if_neg hmany]
  split at hsome
  · cases hsome
  rename_i expected tolerance hsum
  obtain ⟨⟨durations, hdurations, rfl⟩, rfl, -⟩ := sumDurationsFrom_eq_ok (Int.le_refl 0)
    (by decide) (by decide) (by decide) hsum
  exact ⟨⟨durations, hdurations, congrArg some (Int.zero_add _)⟩, rfl⟩

theorem forall_probed_of_complete
    (hcomplete : probeCoverage parts.length (parts.countP fun part => part.probe.isSome) =
      .complete) : ∀ part ∈ parts, part.probe.isSome := by
  unfold probeCoverage at hcomplete
  split at hcomplete
  · cases hcomplete
  split at hcomplete
  · rename_i hall
    exact List.countP_eq_length.mp hall
  · cases hcomplete

/-- Eligible parts are distinct and probed, and their figures are exact. -/
theorem exact_of_eligible {sorting : StreamSort}
    (heligible : (assessJoinFeasibility sorting parts).eligible) :
    (assessJoinFeasibility sorting parts).Exact parts := by
  simp only [JoinFeasibilityAssessment.eligible, Bool.and_eq_true, beq_iff_eq] at heligible
  obtain ⟨⟨⟨⟨⟨⟨⟨⟨⟨⟨⟨⟨⟨-, hcoverage⟩, hsource⟩, -⟩, hexpected⟩, -⟩, -⟩, -⟩, -⟩, -⟩, -⟩, -⟩, -⟩, -⟩ :=
    heligible
  rcases htotal : assessJoinStructure parts with issue | total
  · simp [assessJoinFeasibility, htotal, Except.toOption] at hsource
  obtain ⟨htwo, rfl, hdistinct⟩ := assessJoinStructure_eq_ok htotal
  obtain ⟨hdurations, htolerance⟩ := assessJoinDuration_isSome hexpected
  rw [List.map_map] at hdurations htolerance
  exact {
    two := htwo
    distinct := hdistinct
    probed := forall_probed_of_complete hcoverage
    sourceBytes := by simp [assessJoinFeasibility, htotal, Except.toOption]
    expectedMS := hdurations
    toleranceMS := htolerance }

end NixConfig.MediaRepair.Controller
