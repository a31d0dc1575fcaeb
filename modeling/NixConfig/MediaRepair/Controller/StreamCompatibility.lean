/-
# Streams that can be joined

The controller compares every part with the first one that has streams. A comparison notes
the first field that is missing and the first that differs; parts are compatible when there
is nothing to note anywhere. Agreeing in all fields is a partial equivalence, which makes the
choice of the reference irrelevant for parts that are found compatible. Not being known to
differ is no equivalence, and for parts with missing fields the other two verdicts do depend
on the reference.
-/

import NixConfig.MediaRepair.Controller.Join

namespace NixConfig.MediaRepair.Controller

open Data Semantics

/-! ## What a comparison finds -/

/-- Two values are not known to differ. -/
def Consistent {α : Type} (left right : Option α) : Prop := ∀ a ∈ left, ∀ b ∈ right, a = b

/-- Two values are known, and the same. -/
def Known {α : Type} (left right : Option α) : Prop := left.isSome ∧ left = right

section Fields

variable {α : Type} {field : StreamCompatibilityField} {reference candidate : Option α}
  {comparison : StreamComparison}

theorem known_iff : Known reference candidate ↔
    (reference.isSome ∧ candidate.isSome) ∧ Consistent reference candidate := by
  cases reference <;> cases candidate <;> simp [Known, Consistent]

theorem eq_of_consistent (hsome : reference.isSome = candidate.isSome)
    (hconsistent : Consistent reference candidate) : reference = candidate := by
  cases reference <;> cases candidate <;> simp_all [Consistent]

/-- Each kind of stream has four fields of its own. -/
theorem and₄_imp {a b c d a' b' c' d' : Prop} (ha : a → a') (hb : b → b') (hc : c → c')
    (hd : d → d') : a ∧ b ∧ c ∧ d → a' ∧ b' ∧ c' ∧ d' :=
  And.imp ha (And.imp hb (And.imp hc hd))

theorem known_and₄ {β γ δ : Type} {b b' : Option β} {c c' : Option γ} {d d' : Option δ}
    (hpresent : (reference.isSome ∧ candidate.isSome) ∧ (b.isSome ∧ b'.isSome) ∧
      (c.isSome ∧ c'.isSome) ∧ d.isSome ∧ d'.isSome)
    (hsame : Consistent reference candidate ∧ Consistent b b' ∧ Consistent c c' ∧
      Consistent d d') : Known reference candidate ∧ Known b b' ∧ Known c c' ∧ Known d d' :=
  ⟨known_iff.mpr ⟨hpresent.1, hsame.1⟩, known_iff.mpr ⟨hpresent.2.1, hsame.2.1⟩,
    known_iff.mpr ⟨hpresent.2.2.1, hsame.2.2.1⟩, known_iff.mpr ⟨hpresent.2.2.2, hsame.2.2.2⟩⟩

variable [DecidableEq α]

theorem missing_compareRequiredField :
    (compareRequiredField field reference candidate comparison).missing = none ↔
      comparison.missing = none ∧ reference.isSome ∧ candidate.isSome := by
  -- A missing value is noted, and what was noted before stays.
  have hlost (unset : Bool) : (if comparison.missing.isNone then { comparison with
      missing := some field, missingReference := unset } else comparison).missing ≠ none := by
    cases hmissing : comparison.missing <;> simp [hmissing]
  cases reference with
  | none => simpa [compareRequiredField] using hlost true
  | some expected =>
    cases candidate with
    | none => simpa [compareRequiredField] using hlost false
    | some found =>
      simp only [compareRequiredField, Option.isSome_some, and_true]
      split <;> rfl

theorem mismatch_compareRequiredField :
    (compareRequiredField field reference candidate comparison).mismatch = none ↔
      comparison.mismatch = none ∧ Consistent reference candidate := by
  cases reference with
  | none =>
    simp only [compareRequiredField, Consistent, Option.not_mem_none, false_implies, implies_true,
      and_true]
    split <;> rfl
  | some expected =>
    cases candidate with
    | none =>
      simp only [compareRequiredField, Consistent, Option.not_mem_none, false_implies,
        implies_true, and_true]
      split <;> rfl
    | some found =>
      by_cases hsame : expected = found
      · simp [compareRequiredField, Consistent, hsame]
      · cases hmismatch : comparison.mismatch <;>
          simp [compareRequiredField, Consistent, hsame, hmismatch]

theorem missing_compareOptionalField :
    (compareOptionalField field reference candidate comparison).missing = none ↔
      comparison.missing = none ∧ reference.isSome = candidate.isSome := by
  unfold compareOptionalField
  cases reference <;> cases candidate <;> simp [missing_compareRequiredField]

theorem mismatch_compareOptionalField :
    (compareOptionalField field reference candidate comparison).mismatch = none ↔
      comparison.mismatch = none ∧ Consistent reference candidate := by
  unfold compareOptionalField
  cases reference <;> cases candidate <;> simp [mismatch_compareRequiredField, Consistent]

end Fields

/-- Nothing that both streams are compared in is known to differ. -/
structure StreamsConsistent (reference candidate : ProbeStream) : Prop where
  kind : Consistent reference.kind candidate.kind
  codecName : Consistent reference.codecName candidate.codecName
  profile : Consistent reference.profile candidate.profile
  video : reference.kind = candidate.kind → reference.kind = some videoKind →
    Consistent reference.width candidate.width ∧ Consistent reference.height candidate.height ∧
      Consistent reference.pixelFormat candidate.pixelFormat ∧
      Consistent reference.averageRate candidate.averageRate
  audio : reference.kind = candidate.kind → reference.kind = some audioKind →
    Consistent reference.sampleFormat candidate.sampleFormat ∧
      Consistent reference.sampleRateHz candidate.sampleRateHz ∧
      Consistent reference.channels candidate.channels ∧
      Consistent reference.channelLayout candidate.channelLayout

/-- Two streams agree: they have all required fields, and the same ones. A profile may be
missing in both, and time bases may differ. -/
structure StreamsAgree (reference candidate : ProbeStream) : Prop where
  kind : Known reference.kind candidate.kind
  codecName : Known reference.codecName candidate.codecName
  profile : reference.profile = candidate.profile
  timeBase : reference.timeBase.isSome ∧ candidate.timeBase.isSome
  video : reference.kind = some videoKind →
    Known reference.width candidate.width ∧ Known reference.height candidate.height ∧
      Known reference.pixelFormat candidate.pixelFormat ∧
      Known reference.averageRate candidate.averageRate
  audio : reference.kind = some audioKind →
    Known reference.sampleFormat candidate.sampleFormat ∧
      Known reference.sampleRateHz candidate.sampleRateHz ∧
      Known reference.channels candidate.channels ∧
      Known reference.channelLayout candidate.channelLayout

theorem videoKind_ne_audioKind : videoKind ≠ audioKind := by decide

variable {reference candidate : ProbeStream}

theorem missing_compareCommonFields :
    (compareCommonFields reference candidate).missing = none ↔
      (reference.kind.isSome ∧ candidate.kind.isSome) ∧
      (reference.codecName.isSome ∧ candidate.codecName.isSome) ∧
      reference.profile.isSome = candidate.profile.isSome ∧
      reference.timeBase.isSome ∧ candidate.timeBase.isSome := by
  unfold compareCommonFields
  cases reference.timeBase <;> cases candidate.timeBase <;>
    simp [missing_compareRequiredField, missing_compareOptionalField, and_assoc]

theorem mismatch_compareCommonFields :
    (compareCommonFields reference candidate).mismatch = none ↔
      Consistent reference.kind candidate.kind ∧
      Consistent reference.codecName candidate.codecName ∧
      Consistent reference.profile candidate.profile := by
  unfold compareCommonFields
  cases reference.timeBase <;> cases candidate.timeBase <;>
    simp [mismatch_compareRequiredField, mismatch_compareOptionalField, and_assoc, Consistent]

/-- A comparison is clean, in a sense that every field adds to, when its common fields are
and so are those of the kind that both streams have. -/
theorem compareStreams_clean (clean : StreamComparison → Prop)
    {relates : ∀ {α : Type}, Option α → Option α → Prop}
    (hfield : ∀ {α : Type} [DecidableEq α] (field : StreamCompatibilityField)
      (expected found : Option α) (comparison : StreamComparison),
      clean (compareRequiredField field expected found comparison) ↔
        clean comparison ∧ relates expected found) :
    clean (compareStreams reference candidate) ↔
      clean (compareCommonFields reference candidate) ∧
      (reference.kind = candidate.kind → reference.kind = some videoKind →
        relates reference.width candidate.width ∧ relates reference.height candidate.height ∧
          relates reference.pixelFormat candidate.pixelFormat ∧
          relates reference.averageRate candidate.averageRate) ∧
      (reference.kind = candidate.kind → reference.kind = some audioKind →
        relates reference.sampleFormat candidate.sampleFormat ∧
          relates reference.sampleRateHz candidate.sampleRateHz ∧
          relates reference.channels candidate.channels ∧
          relates reference.channelLayout candidate.channelLayout) := by
  unfold compareStreams
  by_cases hkind : reference.kind = candidate.kind
  · by_cases hvideo : candidate.kind = some videoKind
    · simp [hkind, hvideo, hfield, videoKind_ne_audioKind, and_assoc]
    · by_cases haudio : candidate.kind = some audioKind
      · simp [hkind, haudio, hfield, videoKind_ne_audioKind.symm, and_assoc]
      · simp [hkind, hvideo, haudio]
  · simp [hkind]

theorem mismatch_compareStreams :
    (compareStreams reference candidate).mismatch = none ↔
      StreamsConsistent reference candidate := by
  rw [compareStreams_clean (·.mismatch = none)
    fun _ _ _ _ => mismatch_compareRequiredField, mismatch_compareCommonFields]
  exact ⟨fun ⟨⟨hkind, hcodec, hprofile⟩, hvideo, haudio⟩ =>
      ⟨hkind, hcodec, hprofile, hvideo, haudio⟩,
    fun ⟨hkind, hcodec, hprofile, hvideo, haudio⟩ =>
      ⟨⟨hkind, hcodec, hprofile⟩, hvideo, haudio⟩⟩

/-- A comparison finds nothing exactly when the streams agree. -/
theorem compareStreams_eq_none :
    (compareStreams reference candidate).missing = none ∧
        (compareStreams reference candidate).mismatch = none ↔
      StreamsAgree reference candidate := by
  rw [mismatch_compareStreams, compareStreams_clean (·.missing = none)
    fun _ _ _ _ => missing_compareRequiredField, missing_compareCommonFields]
  constructor
  · rintro ⟨⟨⟨hkind, hcodec, hprofile, htime⟩, hvideo, haudio⟩, hsame⟩
    have hkinds := known_iff.mpr ⟨hkind, hsame.kind⟩
    refine ⟨hkinds, known_iff.mpr ⟨hcodec, hsame.codecName⟩,
      eq_of_consistent hprofile hsame.profile, htime, fun hreference => ?_, fun hreference => ?_⟩
    · exact known_and₄ (hvideo hkinds.2 hreference) (hsame.video hkinds.2 hreference)
    · exact known_and₄ (haudio hkinds.2 hreference) (hsame.audio hkinds.2 hreference)
  · rintro ⟨hkind, hcodec, hprofile, htime, hvideo, haudio⟩
    have hconsistent : Consistent reference.profile candidate.profile := by
      rw [hprofile]
      intro left hleft right hright
      exact Option.mem_unique hleft hright
    simp only [known_iff] at hkind hcodec hvideo haudio
    exact ⟨⟨⟨hkind.1, hcodec.1, by rw [hprofile], htime⟩,
        fun _ hreference => and₄_imp And.left And.left And.left And.left (hvideo hreference),
        fun _ hreference => and₄_imp And.left And.left And.left And.left (haudio hreference)⟩,
      ⟨hkind.2, hcodec.2, hconsistent,
        fun _ hreference => and₄_imp And.right And.right And.right And.right (hvideo hreference),
        fun _ hreference => and₄_imp And.right And.right And.right And.right (haudio hreference)⟩⟩

section Streams

variable (sorting : StreamSort)

/-! ## The two loops -/

variable {referencePosition partPosition streamPosition position : Nat}
  {firstUnknown : Option StreamCompatibilityIssue} {pairs : List (ProbeStream × ProbeStream)}
  {reference : Option (Nat × List ProbeStream)} {probes others : List ProbeEvidence}
  {left right : ProbeEvidence}

/-- Comparing a part with the reference fails at the first stream that differs. Nothing is
unknown when nothing was, and all streams agree. -/
theorem compareStreamsFrom_eq :
    ((∃ issue, compareStreamsFrom referencePosition partPosition streamPosition firstUnknown
        pairs = .error issue) ↔ ¬ ∀ pair ∈ pairs, StreamsConsistent pair.1 pair.2) ∧
    (compareStreamsFrom referencePosition partPosition streamPosition firstUnknown pairs =
        .ok none ↔ firstUnknown = none ∧ ∀ pair ∈ pairs, StreamsAgree pair.1 pair.2) := by
  induction pairs generalizing streamPosition firstUnknown with
  | nil => simp [compareStreamsFrom]
  | cons pair pairs ih =>
    simp only [List.forall_mem_cons, ← @mismatch_compareStreams pair.1 pair.2,
      ← @compareStreams_eq_none pair.1 pair.2, compareStreamsFrom]
    cases hmismatch : (compareStreams pair.1 pair.2).mismatch with
    | some field => simp
    | none =>
      refine ⟨by simpa using ih.1, ?_⟩
      simp only [ih.2]
      cases hmissing : (compareStreams pair.1 pair.2).missing <;> simp

theorem forall₂_iff_zip {α : Type} {related : α → α → Prop} {left right : List α}
    (hlength : right.length = left.length) :
    List.Forall₂ related left right ↔ ∀ pair ∈ left.zip right, related pair.1 pair.2 := by
  rw [List.forall₂_iff_zip, and_iff_right hlength.symm]
  exact ⟨fun hall pair hmem => hall hmem, fun hall a b hmem => hall (a, b) hmem⟩

section Parts

variable {referencePosition position : Nat} {reference : List ProbeStream}
  {firstUnknown : Option StreamCompatibilityIssue} {parts : List (List ProbeStream)}

/-- After the reference every part with streams is compared with it. -/
theorem comparePartsFrom_eq (hafter : referencePosition < position) :
    ((∃ issue, comparePartsFrom referencePosition reference position firstUnknown parts =
        .error issue) ↔
      ∃ streams ∈ parts, streams ≠ [] ∧ ¬ List.Forall₂ StreamsConsistent reference streams) ∧
    (comparePartsFrom referencePosition reference position firstUnknown parts = .ok none ↔
      firstUnknown = none ∧
        ∀ streams ∈ parts, streams ≠ [] → List.Forall₂ StreamsAgree reference streams) := by
  -- over the parts left; the first unknown field found so far is carried along
  induction parts generalizing position firstUnknown with
  | nil => simp [comparePartsFrom]
  | cons part parts ih =>
    have ih {unknown} := @ih (position + 1) unknown (Nat.lt_succ_of_lt hafter)
    rw [comparePartsFrom, List.exists_mem_cons_iff, List.forall_mem_cons]
    split
    -- the reference itself, which comes before, or a part without streams
    case isTrue hskipped =>
      have hempty : part = [] := by
        rcases hskipped with hsame | hempty
        · omega
        · exact List.isEmpty_iff.mp hempty
      simp [ih, hempty]
    case isFalse hcompared =>
      have hne : part ≠ [] := fun hnil => hcompared (.inr (List.isEmpty_iff.mpr hnil))
      split
      case isTrue hlength =>
        have hdiffers {related} : ¬ List.Forall₂ related reference part :=
          fun hall => hlength hall.length_eq.symm
        simp [hne, hdiffers]
      case isFalse hlength =>
        obtain ⟨herror, hnone⟩ := @compareStreamsFrom_eq referencePosition position 0 firstUnknown
          (reference.zip part)
        simp only [forall₂_iff_zip (not_not.mp hlength), ← herror, and_iff_right hne]
        cases hstreams : compareStreamsFrom referencePosition position 0 firstUnknown
            (reference.zip part) with
        | error issue =>
          rw [hstreams] at hnone
          refine ⟨by simp [bind, Except.bind], iff_of_false nofun fun ⟨hunknown, hpairs, _⟩ => ?_⟩
          cases hnone.mpr ⟨hunknown, hpairs hne⟩
        | ok unknown =>
          rw [hstreams, Except.ok.injEq] at hnone
          refine ⟨by simpa [bind, Except.bind] using ih.1, ih.2.trans ?_⟩
          rw [hnone, and_assoc, forall_prop_of_true hne]

end Parts

/-- Parts without streams before the reference, and the reference itself, are passed over. -/
theorem comparePartsFrom_reference {position : Nat} {reference : List ProbeStream}
    {firstUnknown : Option StreamCompatibilityIssue} {before after : List (List ProbeStream)}
    (hempty : ∀ streams ∈ before, streams = []) :
    comparePartsFrom (position + before.length) reference position firstUnknown
        (before ++ reference :: after) =
      comparePartsFrom (position + before.length) reference (position + before.length + 1)
        firstUnknown after := by
  induction before generalizing position with
  | nil => simp [comparePartsFrom]
  | cons streams before ih =>
    obtain ⟨rfl, hbefore⟩ := List.forall_mem_cons.mp hempty
    have hposition : position + ([] :: before).length = position + 1 + before.length := by
      simp only [List.length_cons]
      omega
    rw [hposition, List.cons_append, comparePartsFrom, if_pos (.inr rfl), ih hbefore]

/-- A part that is known to have no video. -/
def WithoutVideo (probe : ProbeEvidence) : Prop :=
  probe.streams ≠ [] ∧ ∀ stream ∈ probe.streams, ∃ kind, stream.kind = some kind ∧ kind ≠ videoKind

/-- A part that is known to have video. -/
def WithVideo (probe : ProbeEvidence) : Prop :=
  ∃ stream ∈ probe.streams, stream.kind = some videoKind

variable {streams : List ProbeStream}

theorem videoPresence_fst :
    (videoPresence streams).1 = true ↔ ∃ stream ∈ streams, stream.kind = some videoKind := by
  induction streams with
  | nil => simp [videoPresence]
  | cons stream streams ih =>
    rw [videoPresence, List.exists_mem_cons_iff, ← ih]
    split <;> simp_all

theorem videoPresence_neither :
    (!(videoPresence streams).1 && !(videoPresence streams).2) = true ↔
      ∀ stream ∈ streams, ∃ kind, stream.kind = some kind ∧ kind ≠ videoKind := by
  induction streams with
  | nil => simp [videoPresence]
  | cons stream streams ih =>
    rw [videoPresence, List.forall_mem_cons, ← ih]
    cases hkind : stream.kind with
    | none => simp
    | some kind => by_cases hvideo : kind = videoKind <;> simp [hvideo]

theorem mem_sort {stream : ProbeStream} :
    stream ∈ sorting.sort streams ↔ stream ∈ streams := (sorting.perm streams).mem_iff

theorem sort_eq_nil :
    sorting.sort streams = [] ↔ streams = [] := by
  rw [← List.length_eq_zero_iff, (sorting.perm streams).length_eq, List.length_eq_zero_iff]

theorem scanStreamsFrom_eq_error :
    (∃ issue, scanStreamsFrom sorting position firstUnknown reference probes = .error issue) ↔
      ∃ probe ∈ probes, WithoutVideo probe := by
  induction probes generalizing position firstUnknown reference with
  | nil => simp [scanStreamsFrom]
  | cons probe probes ih =>
    have hlater (unknown : Option StreamCompatibilityIssue)
        (known : Option (Nat × List ProbeStream)) (ordered : List ProbeStream) :
        (∃ issue, (do
          let scan ← scanStreamsFrom sorting (position + 1) unknown known probes
          pure { scan with streams := ordered :: scan.streams } :
            Except StreamCompatibilityIssue StreamScan) = .error issue) ↔
        ∃ probe ∈ probes, WithoutVideo probe := by
      rw [← ih]
      cases scanStreamsFrom sorting (position + 1) unknown known probes <;>
        simp [bind, Except.bind, pure, Except.pure]
    rw [scanStreamsFrom, List.exists_mem_cons_iff]
    split
    case isTrue hempty =>
      rw [hlater, or_iff_right]
      exact fun hwithout => hwithout.1 (List.isEmpty_iff.mp hempty)
    case isFalse hstreams =>
      have hne : probe.streams ≠ [] := fun hnil => hstreams (List.isEmpty_iff.mpr hnil)
      have hwithout : WithoutVideo probe ↔ (!(videoPresence (sorting.sort probe.streams)).1 &&
          !(videoPresence (sorting.sort probe.streams)).2) = true := by
        rw [videoPresence_neither, WithoutVideo, and_iff_right hne]
        simp only [mem_sort]
      dsimp only
      split
      case isTrue hmissing => simp [hwithout.mpr hmissing]
      case isFalse hpresent => rw [hlater, or_iff_right (mt hwithout.mp hpresent)]

/-- The first part with streams, and where it is. -/
def referenceFrom (position : Nat) : List ProbeEvidence → Option (Nat × List ProbeStream)
  | [] => none
  | probe :: rest =>
    if probe.streams.isEmpty then referenceFrom (position + 1) rest
    else some (position, sorting.sort probe.streams)

theorem scanStreamsFrom_eq_ok {scan : StreamScan}
    (hscan : scanStreamsFrom sorting position firstUnknown reference probes = .ok scan) :
    scan.streams = probes.map (fun probe => sorting.sort probe.streams) ∧
      scan.reference = (reference <|> referenceFrom sorting position probes) ∧
      (scan.firstUnknown = none ↔ firstUnknown = none ∧ ∀ probe ∈ probes, WithVideo probe) := by
  induction probes generalizing position firstUnknown reference scan with
  | nil =>
    cases hscan
    simp [referenceFrom]
  | cons probe probes ih =>
    rw [scanStreamsFrom] at hscan
    split at hscan
    case isTrue hempty =>
      obtain ⟨later, hlater, hscan⟩ := bind_eq_ok.mp hscan
      cases hscan
      obtain ⟨hstreams, hreference, hunknown⟩ := ih hlater
      have hnil := List.isEmpty_iff.mp hempty
      refine ⟨?_, ?_, ?_⟩
      · rw [List.map_cons, hnil, (sort_eq_nil sorting).mpr rfl, hstreams]
      · rw [hreference, referenceFrom, if_pos hempty]
      · -- A part without streams is noted as unknown.
        simp [hunknown, WithVideo, hnil]
    case isFalse hstreams =>
      dsimp only at hscan
      split at hscan
      · cases hscan
      obtain ⟨later, hlater, hscan⟩ := bind_eq_ok.mp hscan
      cases hscan
      obtain ⟨hlaterStreams, hreference, hunknown⟩ := ih hlater
      refine ⟨?_, ?_, ?_⟩
      · rw [List.map_cons, hlaterStreams]
      · rw [hreference, referenceFrom, if_neg hstreams]
        cases reference <;> rfl
      · have hvideo : WithVideo probe ↔
            (videoPresence (sorting.sort probe.streams)).1 = true := by
          simp only [videoPresence_fst, WithVideo, mem_sort]
        rw [hunknown, List.forall_mem_cons, hvideo]
        cases (videoPresence (sorting.sort probe.streams)).1 <;> simp

/-! ## The verdict -/

theorem WithVideo.ne_nil {probe : ProbeEvidence} (hvideo : WithVideo probe) :
    probe.streams ≠ [] := by
  obtain ⟨stream, hmem, -⟩ := hvideo
  exact List.ne_nil_of_mem hmem

/-- The parts up to the first one with streams, which is the reference. -/
structure Referenced (before : List ProbeEvidence) (probe : ProbeEvidence) : Prop where
  before : ∀ other ∈ before, other.streams = []
  streams : probe.streams ≠ []

variable {before after : List ProbeEvidence} {probe : ProbeEvidence}

theorem referenceFrom_append (href : Referenced before probe) :
    referenceFrom sorting position (before ++ probe :: after) =
      some (position + before.length, sorting.sort probe.streams) := by
  obtain ⟨hbefore, hne⟩ := href
  induction before generalizing position with
  | nil => exact if_neg fun hempty => hne (List.isEmpty_iff.mp hempty)
  | cons other before ih =>
    obtain ⟨hother, hbefore⟩ := List.forall_mem_cons.mp hbefore
    rw [List.cons_append, referenceFrom, if_pos (List.isEmpty_iff.mpr hother), ih hbefore,
      List.length_cons, Nat.add_assoc, Nat.add_comm 1]

theorem exists_referenced (hsome : ∃ probe ∈ probes, probe.streams ≠ []) :
    ∃ before probe after, probes = before ++ probe :: after ∧ Referenced before probe := by
  induction probes with
  | nil => simp at hsome
  | cons first probes ih =>
    by_cases hfirst : first.streams = []
    · obtain ⟨before, probe, after, rfl, href⟩ := ih (by simpa [hfirst] using hsome)
      exact ⟨first :: before, probe, after, rfl,
        List.forall_mem_cons.mpr ⟨hfirst, href.before⟩, href.streams⟩
    · exact ⟨[], first, probes, rfl, by simp, hfirst⟩

/-- The assessment, once it is clear which part is the reference. -/
theorem assessStreamCompatibility_append (href : Referenced before probe)
    (hmany : 2 ≤ (before ++ probe :: after).length) :
    assessStreamCompatibility sorting (before ++ probe :: after) =
      match scanStreamsFrom sorting 0 none none (before ++ probe :: after) with
      | .error issue => ⟨.incompatible, some issue, none⟩
      | .ok scan =>
        match comparePartsFrom before.length (sorting.sort probe.streams) (before.length + 1)
            scan.firstUnknown (after.map fun other => sorting.sort other.streams) with
        | .error issue => ⟨.incompatible, some issue, none⟩
        | .ok (some unknown) => ⟨.unknown, some unknown, none⟩
        | .ok none => ⟨.compatible, none, layoutFromStreams (sorting.sort probe.streams)⟩ := by
  rw [assessStreamCompatibility, if_neg (Nat.not_lt.mpr hmany)]
  cases hscan : scanStreamsFrom sorting 0 none none (before ++ probe :: after) with
  | error issue => rfl
  | ok scan =>
    obtain ⟨hstreams, hreference, -⟩ := scanStreamsFrom_eq_ok sorting hscan
    have hempty : ∀ streams ∈ before.map fun other => sorting.sort other.streams,
        streams = [] := by
      intro streams hmem
      obtain ⟨other, hother, rfl⟩ := List.mem_map.mp hmem
      rw [href.before other hother, sort_eq_nil]
    have hskip := @comparePartsFrom_reference 0 (sorting.sort probe.streams) scan.firstUnknown _
      (after.map fun other => sorting.sort other.streams) hempty
    rw [referenceFrom_append sorting href, Nat.zero_add] at hreference
    rw [Nat.zero_add, List.length_map] at hskip
    have hcompare : comparePartsFrom before.length (sorting.sort probe.streams) 0
        scan.firstUnknown scan.streams = comparePartsFrom before.length
          (sorting.sort probe.streams) (before.length + 1) scan.firstUnknown
          (after.map fun other => sorting.sort other.streams) := by
      rw [hstreams, List.map_append, List.map_cons, hskip]
    have hreference : scan.reference = some (before.length, sorting.sort probe.streams) :=
      hreference
    cases hresult : comparePartsFrom before.length (sorting.sort probe.streams)
        (before.length + 1) scan.firstUnknown
        (after.map fun other => sorting.sort other.streams) with
    | error issue => simp only [hreference, hcompare, hresult]
    | ok unknown => cases unknown <;> simp only [hreference, hcompare, hresult]

/-- The verdict is reached in the scan, or by comparing what follows with the reference. -/
theorem verdict_append (href : Referenced before probe)
    (hmany : 2 ≤ (before ++ probe :: after).length) :
    let assessed := assessStreamCompatibility sorting (before ++ probe :: after)
    (assessed.compatibility = .incompatible ↔
      (∃ other ∈ before ++ probe :: after, WithoutVideo other) ∨
      ∃ other ∈ after, other.streams ≠ [] ∧ ¬ List.Forall₂ StreamsConsistent
        (sorting.sort probe.streams) (sorting.sort other.streams)) ∧
    (assessed.compatibility = .compatible ↔
      (∀ other ∈ before ++ probe :: after, WithVideo other) ∧
      ∀ other ∈ after,
        List.Forall₂ StreamsAgree (sorting.sort probe.streams) (sorting.sort other.streams)) ∧
    (assessed.compatibility = .compatible →
      assessed.layout = layoutFromStreams (sorting.sort probe.streams)) := by
  rw [assessStreamCompatibility_append sorting href hmany]
  have hscanned := @scanStreamsFrom_eq_error sorting 0 none none (before ++ probe :: after)
  cases hscan : scanStreamsFrom sorting 0 none none (before ++ probe :: after) with
  | error issue =>
    have hwithout := hscanned.mp ⟨issue, hscan⟩
    refine ⟨iff_of_true rfl (.inl hwithout), iff_of_false nofun fun ⟨hvideo, _⟩ => ?_, nofun⟩
    -- A part cannot both have video and be known not to.
    obtain ⟨other, hmem, -, hwithout⟩ := hwithout
    obtain ⟨stream, hstream, hkind⟩ := hvideo other hmem
    obtain ⟨kind, hother, hne⟩ := hwithout stream hstream
    exact absurd (Option.some.inj (hother.symm.trans hkind)) hne
  | ok scan =>
    rw [hscan] at hscanned
    rw [← hscanned, or_iff_right (by simp)]
    obtain ⟨-, -, hunknown⟩ := scanStreamsFrom_eq_ok sorting hscan
    obtain ⟨herror, hnone⟩ := @comparePartsFrom_eq before.length (before.length + 1)
      (sorting.sort probe.streams) scan.firstUnknown
      (after.map fun other => sorting.sort other.streams) (Nat.lt_succ_self _)
    simp only [List.mem_map, exists_exists_and_eq_and, ne_eq, sort_eq_nil] at herror
    have hagree : (∀ other ∈ before ++ probe :: after, WithVideo other) →
        ((∀ other ∈ after, other.streams ≠ [] →
          List.Forall₂ StreamsAgree (sorting.sort probe.streams) (sorting.sort other.streams)) ↔
        ∀ other ∈ after,
          List.Forall₂ StreamsAgree (sorting.sort probe.streams) (sorting.sort other.streams)) :=
      fun hvideo => forall₂_congr fun other hmem =>
        forall_prop_of_true (hvideo other (by simp [hmem])).ne_nil
    rw [hunknown, and_iff_right rfl, List.forall_mem_map] at hnone
    simp only [ne_eq, sort_eq_nil, and_congr_right hagree] at hnone
    rw [← herror, ← hnone]
    dsimp only
    split <;> simp_all

/-- Parts of which none has streams have no reference. -/
theorem unknown_of_forall (hempty : ∀ probe ∈ probes, probe.streams = []) :
    (assessStreamCompatibility sorting probes).compatibility = .unknown := by
  have hreference (position : Nat) : referenceFrom sorting position probes = none := by
    induction probes generalizing position with
    | nil => rfl
    | cons probe probes ih =>
      obtain ⟨hprobe, hempty⟩ := List.forall_mem_cons.mp hempty
      rw [referenceFrom, if_pos (List.isEmpty_iff.mpr hprobe), ih hempty]
  unfold assessStreamCompatibility
  split
  case isTrue => rfl
  case isFalse =>
    cases hscan : scanStreamsFrom sorting 0 none none probes with
    | error issue =>
      obtain ⟨probe, hmem, hne, -⟩ := (scanStreamsFrom_eq_error sorting).mp ⟨issue, hscan⟩
      exact absurd (hempty probe hmem) hne
    | ok scan =>
      obtain ⟨-, hscanned, -⟩ := scanStreamsFrom_eq_ok sorting hscan
      rw [hreference] at hscanned
      have hnone : scan.reference = none := hscanned
      simp only [hnone]

/-- A verdict is reached with a reference. -/
theorem exists_reference
    (hverdict : (assessStreamCompatibility sorting probes).compatibility ≠ .unknown) :
    2 ≤ probes.length ∧ ∃ probe ∈ probes, probe.streams ≠ [] := by
  refine ⟨?_, ?_⟩ <;> by_contra hnot <;> refine hverdict ?_
  · rw [assessStreamCompatibility, if_pos (Nat.not_le.mp hnot)]
  · exact unknown_of_forall sorting (by simpa using hnot)

/-! ## The choice of the reference -/

section Agreement

variable {left middle right : ProbeStream}

theorem Known.symm {α : Type} {left right : Option α} (hknown : Known left right) :
    Known right left := ⟨hknown.2 ▸ hknown.1, hknown.2.symm⟩

theorem Known.trans {α : Type} {left middle right : Option α} (hleft : Known left middle)
    (hright : Known middle right) : Known left right := ⟨hleft.1, hleft.2.trans hright.2⟩

theorem StreamsAgree.symm (hagree : StreamsAgree left right) : StreamsAgree right left where
  kind := hagree.kind.symm
  codecName := hagree.codecName.symm
  profile := hagree.profile.symm
  timeBase := hagree.timeBase.symm
  video hkind := and₄_imp Known.symm Known.symm Known.symm Known.symm
    (hagree.video (hagree.kind.2.trans hkind))
  audio hkind := and₄_imp Known.symm Known.symm Known.symm Known.symm
    (hagree.audio (hagree.kind.2.trans hkind))

theorem StreamsAgree.trans (hleft : StreamsAgree left middle) (hright : StreamsAgree middle right) :
    StreamsAgree left right where
  kind := hleft.kind.trans hright.kind
  codecName := hleft.codecName.trans hright.codecName
  profile := hleft.profile.trans hright.profile
  timeBase := ⟨hleft.timeBase.1, hright.timeBase.2⟩
  video hkind := by
    have hfields := hright.video (hleft.kind.2.symm.trans hkind)
    exact and₄_imp (·.trans hfields.1) (·.trans hfields.2.1) (·.trans hfields.2.2.1)
      (·.trans hfields.2.2.2) (hleft.video hkind)
  audio hkind := by
    have hfields := hright.audio (hleft.kind.2.symm.trans hkind)
    exact and₄_imp (·.trans hfields.1) (·.trans hfields.2.1) (·.trans hfields.2.2.1)
      (·.trans hfields.2.2.2) (hleft.audio hkind)

/-- A stream has all the fields that it is compared in. -/
structure Described (stream : ProbeStream) : Prop where
  kind : stream.kind.isSome
  codecName : stream.codecName.isSome
  timeBase : stream.timeBase.isSome
  video : stream.kind = some videoKind →
    stream.width.isSome ∧ stream.height.isSome ∧ stream.pixelFormat.isSome ∧
      stream.averageRate.isSome
  audio : stream.kind = some audioKind →
    stream.sampleFormat.isSome ∧ stream.sampleRateHz.isSome ∧ stream.channels.isSome ∧
      stream.channelLayout.isSome

/-- Described streams agree unless they are known to differ. -/
theorem agree_of_consistent (hleft : Described left) (hright : Described right)
    (hprofile : left.profile.isSome = right.profile.isSome)
    (hconsistent : StreamsConsistent left right) : StreamsAgree left right := by
  have hkind : Known left.kind right.kind :=
    known_iff.mpr ⟨⟨hleft.kind, hright.kind⟩, hconsistent.kind⟩
  refine ⟨hkind, known_iff.mpr ⟨⟨hleft.codecName, hright.codecName⟩, hconsistent.codecName⟩,
    eq_of_consistent hprofile hconsistent.profile, ⟨hleft.timeBase, hright.timeBase⟩,
    fun hvideo => ?_, fun haudio => ?_⟩
  · have hfields := hright.video (hkind.2.symm.trans hvideo)
    exact known_and₄ (and₄_imp (⟨·, hfields.1⟩) (⟨·, hfields.2.1⟩) (⟨·, hfields.2.2.1⟩)
      (⟨·, hfields.2.2.2⟩) (hleft.video hvideo)) (hconsistent.video hkind.2 hvideo)
  · have hfields := hright.audio (hkind.2.symm.trans haudio)
    exact known_and₄ (and₄_imp (⟨·, hfields.1⟩) (⟨·, hfields.2.1⟩) (⟨·, hfields.2.2.1⟩)
      (⟨·, hfields.2.2.2⟩) (hleft.audio haudio)) (hconsistent.audio hkind.2 haudio)

theorem StreamsAgree.consistent (hagree : StreamsAgree left right) : StreamsConsistent left right :=
  mismatch_compareStreams.mp (compareStreams_eq_none.mpr hagree).2

end Agreement

/-- Two parts agree, stream by stream in the order of their indexes. -/
def PartsAgree (left right : ProbeEvidence) : Prop :=
  List.Forall₂ StreamsAgree (sorting.sort left.streams) (sorting.sort right.streams)

theorem PartsAgree.symm (hagree : PartsAgree sorting left right) :
    PartsAgree sorting right left :=
  hagree.flip.imp fun _ _ => StreamsAgree.symm

theorem PartsAgree.trans {middle : ProbeEvidence} (hleft : PartsAgree sorting left middle)
    (hright : PartsAgree sorting middle right) :
    PartsAgree sorting left right := by
  rw [PartsAgree, List.forall₂_iff_get] at *
  refine ⟨hleft.1.trans hright.1, fun position hposition hposition' => ?_⟩
  have hmiddle : position < (sorting.sort middle.streams).length := hleft.1 ▸ hposition
  exact (hleft.2 position hposition hmiddle).trans (hright.2 position hmiddle hposition')

/-- Parts are compatible when there are at least two, all of them have video, and any two of
them agree. -/
theorem compatible_iff :
    (assessStreamCompatibility sorting probes).compatibility = .compatible ↔
      2 ≤ probes.length ∧ (∀ probe ∈ probes, WithVideo probe) ∧
        ∀ left ∈ probes, ∀ right ∈ probes, PartsAgree sorting left right := by
  by_cases hsome : 2 ≤ probes.length ∧ ∃ probe ∈ probes, probe.streams ≠ []
  case neg =>
    refine iff_of_false (fun h => hsome (exists_reference sorting (by rw [h]; nofun))) ?_
    rintro ⟨hmany, hvideo, -⟩
    obtain ⟨probe, hmem⟩ := List.exists_mem_of_length_pos (Nat.lt_of_lt_of_le Nat.two_pos hmany)
    exact hsome ⟨hmany, probe, hmem, (hvideo probe hmem).ne_nil⟩
  obtain ⟨hmany, hsome⟩ := hsome
  obtain ⟨before, probe, after, rfl, href⟩ := exists_referenced hsome
  rw [(verdict_append sorting href hmany).2.1, and_iff_right hmany]
  refine and_congr_right fun hvideo => ?_
  constructor
  · intro hafter
    -- Nothing comes before the reference, so that another part comes after it.
    obtain rfl : before = [] := by
      refine List.eq_nil_iff_forall_not_mem.mpr fun other hmem => ?_
      exact (hvideo other (List.mem_append_left _ hmem)).ne_nil (href.before other hmem)
    obtain ⟨other, hother⟩ : ∃ other, other ∈ after := by
      refine List.exists_mem_of_length_pos ?_
      simp only [List.nil_append, List.length_cons] at hmany
      omega
    have hself : PartsAgree sorting probe probe :=
      PartsAgree.trans sorting (hafter other hother) (PartsAgree.symm sorting (hafter other hother))
    have hall : ∀ part ∈ probe :: after, PartsAgree sorting probe part :=
      List.forall_mem_cons.mpr ⟨hself, hafter⟩
    intro left hleft right hright
    exact (PartsAgree.symm sorting (hall left hleft)).trans sorting (hall right hright)
  · intro hall other hother
    exact hall probe (by simp) other (by simp [hother])

/-- The parts have all the fields that they are compared in, and a profile in a stream of all
parts or of none. -/
structure DescribedParts (probes : List ProbeEvidence) : Prop where
  streams : ∀ probe ∈ probes, ∀ stream ∈ probe.streams, Described stream
  profiles : ∀ left ∈ probes, ∀ right ∈ probes,
    ∀ pair ∈ (sorting.sort left.streams).zip (sorting.sort right.streams),
      pair.1.profile.isSome = pair.2.profile.isSome

theorem DescribedParts.agree_iff (hdescribed : DescribedParts sorting probes)
    (hleft : left ∈ probes) (hright : right ∈ probes) :
    List.Forall₂ StreamsConsistent (sorting.sort left.streams) (sorting.sort right.streams) ↔
      PartsAgree sorting left right := by
  refine ⟨fun hconsistent => ?_, fun hagree => hagree.imp fun _ _ => StreamsAgree.consistent⟩
  have hlength := hconsistent.length_eq.symm
  rw [PartsAgree, forall₂_iff_zip hlength]
  rw [forall₂_iff_zip hlength] at hconsistent
  intro pair hmem
  obtain ⟨hfirst, hsecond⟩ := List.of_mem_zip hmem
  exact agree_of_consistent
    (hdescribed.streams left hleft pair.1 ((mem_sort sorting).mp hfirst))
    (hdescribed.streams right hright pair.2 ((mem_sort sorting).mp hsecond))
    (hdescribed.profiles left hleft right hright pair hmem) (hconsistent pair hmem)

theorem DescribedParts.agree_self (hdescribed : DescribedParts sorting probes)
    {probe : ProbeEvidence} (hmem : probe ∈ probes) :
    PartsAgree sorting probe probe := by
  have hrefl {α : Type} (value : Option α) : Consistent value value :=
    fun _ hleft _ hright => Option.mem_unique hleft hright
  refine (hdescribed.agree_iff sorting hmem hmem).mp (List.forall₂_same.mpr fun stream _ => ?_)
  exact ⟨hrefl _, hrefl _, hrefl _, fun _ _ => ⟨hrefl _, hrefl _, hrefl _, hrefl _⟩,
    fun _ _ => ⟨hrefl _, hrefl _, hrefl _, hrefl _⟩⟩

/-- Parts without missing fields are incompatible when one is known to have no video or two
of them do not agree. -/
theorem incompatible_iff (hdescribed : DescribedParts sorting probes) :
    (assessStreamCompatibility sorting probes).compatibility = .incompatible ↔
      2 ≤ probes.length ∧ ((∃ probe ∈ probes, WithoutVideo probe) ∨
        ∃ left ∈ probes, ∃ right ∈ probes, left.streams ≠ [] ∧ right.streams ≠ [] ∧
          ¬ PartsAgree sorting left right) := by
  by_cases hsome : 2 ≤ probes.length ∧ ∃ probe ∈ probes, probe.streams ≠ []
  case neg =>
    refine iff_of_false (fun h => hsome (exists_reference sorting (by rw [h]; nofun))) ?_
    rintro ⟨hmany, ⟨probe, hmem, hne, -⟩ | ⟨left, hmem, -, -, hne, -⟩⟩
    · exact hsome ⟨hmany, probe, hmem, hne⟩
    · exact hsome ⟨hmany, left, hmem, hne⟩
  obtain ⟨hmany, hsome⟩ := hsome
  rw [and_iff_right hmany]
  obtain ⟨before, probe, after, rfl, href⟩ := exists_referenced hsome
  have hprobe : probe ∈ before ++ probe :: after := by simp
  rw [(verdict_append sorting href hmany).1]
  refine or_congr_right ⟨?_, ?_⟩
  · rintro ⟨other, hother, hne, hdiffers⟩
    have hmem : other ∈ before ++ probe :: after := by simp [hother]
    exact ⟨probe, hprobe, other, hmem, href.streams, hne,
      mt (hdescribed.agree_iff sorting hprobe hmem).mpr hdiffers⟩
  · rintro ⟨left, hleft, right, hright, hleftStreams, hrightStreams, hdiffers⟩
    by_contra hnone
    -- Every part with streams agrees with the reference, and so do any two.
    have hall : ∀ part ∈ before ++ probe :: after, part.streams ≠ [] →
        PartsAgree sorting probe part := by
      intro part hpart hne
      rcases List.mem_append.mp hpart with hbefore | hfrom
      · exact absurd (href.before part hbefore) hne
      rcases List.mem_cons.mp hfrom with rfl | hafter
      · exact hdescribed.agree_self sorting hprobe
      · by_contra hother
        exact hnone ⟨part, hafter, hne, mt (hdescribed.agree_iff sorting hprobe hpart).mp hother⟩
    exact hdiffers ((PartsAgree.symm sorting (hall left hleft hleftStreams)).trans sorting
      (hall right hright hrightStreams))

/-- Whether parts are compatible does not depend on their order. -/
theorem compatible_perm (hperm : probes.Perm others) :
    (assessStreamCompatibility sorting probes).compatibility = .compatible ↔
      (assessStreamCompatibility sorting others).compatibility = .compatible := by
  simp only [compatible_iff, hperm.length_eq, hperm.mem_iff]

/-- The verdict on parts without missing fields does not depend on their order. -/
theorem compatibility_perm (hperm : probes.Perm others)
    (hdescribed : DescribedParts sorting probes) :
    (assessStreamCompatibility sorting probes).compatibility =
      (assessStreamCompatibility sorting others).compatibility := by
  have hothers : DescribedParts sorting others := by
    refine ⟨fun probe hmem => hdescribed.streams probe (hperm.mem_iff.mpr hmem), ?_⟩
    intro left hleft right hright
    exact hdescribed.profiles left (hperm.mem_iff.mpr hleft) right (hperm.mem_iff.mpr hright)
  have hcompatible := compatible_perm sorting hperm
  have hincompatible : (assessStreamCompatibility sorting probes).compatibility = .incompatible ↔
      (assessStreamCompatibility sorting others).compatibility = .incompatible := by
    simp only [incompatible_iff sorting hdescribed, incompatible_iff sorting hothers,
      hperm.length_eq, hperm.mem_iff]
  generalize (assessStreamCompatibility sorting probes).compatibility = verdict at *
  generalize (assessStreamCompatibility sorting others).compatibility = other at *
  cases verdict <;> cases other <;> simp_all

/-! ## The joined file -/

/-- The stream that a layout entry stands for; `none` where a kind lacks its own fields. -/
def streamFromLayout (entry : StreamLayoutEntry) : Option ProbeStream :=
  let stream : ProbeStream := {
    index := 0, kind := some entry.kind, codecName := some entry.codecName
    profile := entry.profile, codecTag := none, width := none, height := none
    pixelFormat := none, sampleFormat := none, sampleRateHz := none, channels := none
    channelLayout := none, averageRate := none, timeBase := some entry.timeBase
    startTimeMS := none, durationMS := none, bitRateBPS := none, disposition := none, tags := [] }
  if entry.kind = videoKind then
    entry.video.map fun video => { stream with
      width := some video.width, height := some video.height
      pixelFormat := some video.pixelFormat, averageRate := some video.averageRate }
  else if entry.kind = audioKind then
    entry.audio.map fun audio => { stream with
      sampleFormat := some audio.sampleFormat, sampleRateHz := some audio.sampleRateHz
      channels := some audio.channels, channelLayout := some audio.channelLayout }
  else some stream

section Muxed

-- The comparison of two positive rates as floating-point numbers.
variable (withinTolerance : Rational → Rational → Bool)

def rationalWithinRelativeTolerance (reference candidate : Rational) : Bool :=
  0 < reference.numerator && 0 < reference.denominator && 0 < candidate.numerator &&
    0 < candidate.denominator && withinTolerance reference candidate

/-- The average rate is derived from the complete muxed stream and can differ slightly from
the rate reported for each input part. -/
def compareMuxedStream (reference candidate : ProbeStream) : StreamComparison :=
  match reference.averageRate, candidate.averageRate with
  | some expected, some found =>
    if rationalWithinRelativeTolerance withinTolerance expected found then
      compareStreams { reference with averageRate := some found } candidate
    else compareStreams reference candidate
  | _, _ => compareStreams reference candidate

/-- The loop over the expected streams, with the index of the stream before. -/
def matchesMuxedFrom : Option Int → List StreamLayoutEntry → List ProbeStream → Bool
  | previous, expected :: entries, stream :: streams =>
    if previous = some stream.index then false
    else
      match streamFromLayout expected with
      | none => false
      | some reference =>
        let comparison := compareMuxedStream withinTolerance reference stream
        if comparison.missing.isSome || comparison.mismatch.isSome then false
        else matchesMuxedFrom (some stream.index) entries streams
  | _, _, _ => true

def StreamLayout.matchesMuxedOutput (layout : StreamLayout) (streams : List ProbeStream) : Bool :=
  if streams.length ≠ layout.streams.length then false
  else matchesMuxedFrom withinTolerance none layout.streams (sorting.sort streams)

/-- A layout entry keeps of a stream what other streams are compared with. -/
def Keeps (stream : ProbeStream) (entry : StreamLayoutEntry) : Prop :=
  ∃ reference, streamFromLayout entry = some reference ∧
    ∀ candidate, StreamsAgree stream candidate → StreamsAgree reference candidate

/-- A stream with all its fields has a layout entry: no nil pointer is followed. -/
theorem exists_layoutEntry {stream : ProbeStream} (hself : StreamsAgree stream stream) :
    ∃ entry, layoutEntry stream = some entry ∧ Keeps stream entry := by
  obtain ⟨kind, hkind⟩ := Option.isSome_iff_exists.mp hself.kind.1
  obtain ⟨codecName, hcodec⟩ := Option.isSome_iff_exists.mp hself.codecName.1
  obtain ⟨timeBase, htime⟩ := Option.isSome_iff_exists.mp hself.timeBase.1
  -- What a stream must agree on with itself is there, so the fields that its kind asks for are
  -- present.
  by_cases hvideo : kind = videoKind
  · obtain ⟨⟨hwidth, -⟩, ⟨hheight, -⟩, ⟨hpixel, -⟩, ⟨hrate, -⟩⟩ :=
      hself.video (hkind.trans (congrArg some hvideo))
    obtain ⟨width, hwidth⟩ := Option.isSome_iff_exists.mp hwidth
    obtain ⟨height, hheight⟩ := Option.isSome_iff_exists.mp hheight
    obtain ⟨pixelFormat, hpixel⟩ := Option.isSome_iff_exists.mp hpixel
    obtain ⟨averageRate, hrate⟩ := Option.isSome_iff_exists.mp hrate
    refine ⟨⟨kind, codecName, stream.profile, timeBase,
      some ⟨width, height, pixelFormat, averageRate⟩, none⟩, ?_, _, if_pos hvideo, ?_⟩
    · simp [layoutEntry, hkind, hcodec, htime, hvideo, hwidth, hheight, hpixel, hrate]
    · intro candidate hagree
      have hfields := hagree.video (hkind.trans (congrArg some hvideo))
      rw [hwidth, hheight, hpixel, hrate] at hfields
      refine ⟨hkind ▸ hagree.kind, hcodec ▸ hagree.codecName, hagree.profile,
        ⟨rfl, hagree.timeBase.2⟩, fun _ => hfields, fun haudio => ?_⟩
      exact absurd (hvideo.symm.trans (Option.some.inj haudio)) videoKind_ne_audioKind
  · by_cases haudio : kind = audioKind
    · obtain ⟨⟨hformat, -⟩, ⟨hrate, -⟩, ⟨hchannels, -⟩, ⟨hlayout, -⟩⟩ :=
        hself.audio (hkind.trans (congrArg some haudio))
      obtain ⟨sampleFormat, hformat⟩ := Option.isSome_iff_exists.mp hformat
      obtain ⟨sampleRateHz, hrate⟩ := Option.isSome_iff_exists.mp hrate
      obtain ⟨channels, hchannels⟩ := Option.isSome_iff_exists.mp hchannels
      obtain ⟨channelLayout, hlayout⟩ := Option.isSome_iff_exists.mp hlayout
      refine ⟨⟨kind, codecName, stream.profile, timeBase, none,
        some ⟨sampleFormat, sampleRateHz, channels, channelLayout⟩⟩, ?_, _,
        (if_neg hvideo).trans (if_pos haudio), ?_⟩
      · simp [layoutEntry, hkind, hcodec, htime, haudio, videoKind_ne_audioKind.symm, hformat,
          hrate, hchannels, hlayout]
      · intro candidate hagree
        have hfields := hagree.audio (hkind.trans (congrArg some haudio))
        rw [hformat, hrate, hchannels, hlayout] at hfields
        exact ⟨hkind ▸ hagree.kind, hcodec ▸ hagree.codecName, hagree.profile,
          ⟨rfl, hagree.timeBase.2⟩, fun hother => absurd (Option.some.inj hother) hvideo,
          fun _ => hfields⟩
    · refine ⟨⟨kind, codecName, stream.profile, timeBase, none, none⟩, ?_, _,
        (if_neg hvideo).trans (if_neg haudio), ?_⟩
      · simp [layoutEntry, hkind, hcodec, htime, hvideo, haudio]
      · intro candidate hagree
        exact ⟨hkind ▸ hagree.kind, hcodec ▸ hagree.codecName, hagree.profile,
          ⟨rfl, hagree.timeBase.2⟩, fun hother => absurd (Option.some.inj hother) hvideo,
          fun hother => absurd (Option.some.inj hother) haudio⟩

theorem exists_layoutEntries {streams : List ProbeStream}
    (hself : ∀ stream ∈ streams, StreamsAgree stream stream) :
    ∃ entries, streams.mapM layoutEntry = some entries ∧ List.Forall₂ Keeps streams entries := by
  induction streams with
  | nil => exact ⟨[], rfl, .nil⟩
  | cons stream streams ih =>
    obtain ⟨hstream, hstreams⟩ := List.forall_mem_cons.mp hself
    obtain ⟨entry, hentry, hkeeps⟩ := exists_layoutEntry hstream
    obtain ⟨entries, hentries, hall⟩ := ih hstreams
    refine ⟨entry :: entries, ?_, .cons hkeeps hall⟩
    simp [List.mapM_cons, hentry, hentries]

theorem compareMuxedStream_of_agree {reference candidate : ProbeStream}
    (hagree : StreamsAgree reference candidate) :
    (compareMuxedStream withinTolerance reference candidate).missing = none ∧
      (compareMuxedStream withinTolerance reference candidate).mismatch = none := by
  unfold compareMuxedStream
  split
  case h_2 => exact compareStreams_eq_none.mpr hagree
  case h_1 expected found _ hfound =>
    split
    case isFalse => exact compareStreams_eq_none.mpr hagree
    case isTrue =>
      -- A rate that matters is the same already.
      refine compareStreams_eq_none.mpr ⟨hagree.kind, hagree.codecName, hagree.profile,
        hagree.timeBase, fun hvideo => ?_, hagree.audio⟩
      obtain ⟨hwidth, hheight, hpixel, -⟩ := hagree.video hvideo
      exact ⟨hwidth, hheight, hpixel, rfl, hfound.symm⟩

/-- Streams that agree with those of a layout, and have distinct indexes, match it. -/
theorem matchesMuxedFrom_of_agree {streams candidates : List ProbeStream}
    {entries : List StreamLayoutEntry} {previous : Option Int}
    (hkeeps : List.Forall₂ Keeps streams entries)
    (hagree : List.Forall₂ StreamsAgree streams candidates)
    (hnodup : (candidates.map (·.index)).Nodup)
    (hfresh : ∀ index ∈ previous, index ∉ candidates.map (·.index)) :
    matchesMuxedFrom withinTolerance previous entries candidates = true := by
  induction hkeeps generalizing candidates previous with
  | nil =>
    cases hagree
    rfl
  | cons hentry _ ih =>
    obtain _ | @⟨_, candidate, _, candidates, hfirst, hrest⟩ := hagree
    obtain ⟨reference, hreference, hkept⟩ := hentry
    obtain ⟨hnew, hnodup⟩ := List.nodup_cons.mp hnodup
    obtain ⟨hmissing, hmismatch⟩ := compareMuxedStream_of_agree withinTolerance (hkept _ hfirst)
    have hmoved : previous ≠ some candidate.index := fun hsame =>
      hfresh _ hsame List.mem_cons_self
    rw [matchesMuxedFrom, if_neg hmoved]
    simp only [hreference, hmissing, hmismatch, Option.isSome_none, Bool.or_self,
      Bool.false_eq_true, if_false]
    refine ih hrest hnodup ?_
    rintro index hindex
    cases hindex
    exact hnew

/-- Compatible parts have a layout, and each part that has its streams under distinct indexes
matches it. -/
theorem layout_of_compatible {probes : List ProbeEvidence}
    (hcompatible : (assessStreamCompatibility sorting probes).compatibility = .compatible) :
    ∃ layout, (assessStreamCompatibility sorting probes).layout = some layout ∧
      ∀ probe ∈ probes, (probe.streams.map (·.index)).Nodup →
        layout.matchesMuxedOutput sorting withinTolerance probe.streams = true := by
  obtain ⟨hmany, hvideo, hagree⟩ := (compatible_iff sorting).mp hcompatible
  obtain ⟨first, rest, rfl⟩ := List.exists_cons_of_length_pos (Nat.lt_of_lt_of_le Nat.two_pos hmany)
  have href : Referenced [] first := ⟨by simp, (hvideo first List.mem_cons_self).ne_nil⟩
  have hself : ∀ stream ∈ sorting.sort first.streams, StreamsAgree stream stream :=
    List.forall₂_same.mp (hagree first List.mem_cons_self first List.mem_cons_self)
  obtain ⟨entries, hentries, hkeeps⟩ := exists_layoutEntries hself
  refine ⟨⟨entries⟩, ?_, fun probe hmem hnodup => ?_⟩
  · rw [← List.nil_append (first :: rest)] at hcompatible hmany ⊢
    rw [(verdict_append sorting href hmany).2.2 hcompatible, layoutFromStreams, hentries]
    rfl
  · have hpart := hagree first List.mem_cons_self probe hmem
    have hlength : probe.streams.length = entries.length := by
      rw [← hkeeps.length_eq, hpart.length_eq, (sorting.perm probe.streams).length_eq]
    have hindexes : ((sorting.sort probe.streams).map (·.index)).Nodup :=
      ((sorting.perm probe.streams).map _).nodup_iff.mpr hnodup
    rw [StreamLayout.matchesMuxedOutput, if_neg (not_not.mpr hlength)]
    exact matchesMuxedFrom_of_agree withinTolerance hkeeps hpart hindexes nofun

/-- Parts are compatible exactly when there are at least two of them, all with video, that
agree position by position. This does not depend on their order, and nor does the verdict
unless fields are missing. Compatible parts match the layout that is returned. -/
theorem assessStreamCompatibility_verdict (probes : List ProbeEvidence) :
    ((assessStreamCompatibility sorting probes).compatibility = .compatible ↔
      2 ≤ probes.length ∧ (∀ probe ∈ probes, WithVideo probe) ∧
        ∀ left ∈ probes, ∀ right ∈ probes, PartsAgree sorting left right) ∧
    (∀ others : List ProbeEvidence, probes.Perm others →
      ((assessStreamCompatibility sorting probes).compatibility = .compatible ↔
        (assessStreamCompatibility sorting others).compatibility = .compatible) ∧
      (DescribedParts sorting probes → (assessStreamCompatibility sorting probes).compatibility =
        (assessStreamCompatibility sorting others).compatibility)) ∧
    ((assessStreamCompatibility sorting probes).compatibility = .compatible →
      ∃ layout, (assessStreamCompatibility sorting probes).layout = some layout ∧
        ∀ probe ∈ probes, (probe.streams.map (·.index)).Nodup →
          layout.matchesMuxedOutput sorting withinTolerance probe.streams = true) :=
  ⟨compatible_iff sorting,
    fun _ hperm => ⟨compatible_perm sorting hperm, compatibility_perm sorting hperm⟩,
    layout_of_compatible sorting withinTolerance⟩

end Muxed

end Streams

/-- A part with one video stream. -/
def videoPart (codecName : Option Text) : ProbeEvidence :=
  ⟨⟨[], none, none, none⟩, [{
    index := 0, kind := some videoKind, codecName := codecName, profile := none, codecTag := none
    width := some 640, height := some 480, pixelFormat := some (bytes "yuv420p")
    sampleFormat := none, sampleRateHz := none, channels := none, channelLayout := none
    averageRate := some ⟨25, 1⟩, timeBase := some ⟨1, 1000⟩, startTimeMS := none
    durationMS := none, bitRateBPS := none, disposition := none, tags := [] }]⟩

/-- Two equal parts. -/
theorem equal_parts_match_layout :
    (assessStreamCompatibility insertionSorting
        [videoPart (some (bytes "h264")), videoPart (some (bytes "h264"))]).compatibility =
        .compatible ∧
      ∃ layout, (assessStreamCompatibility insertionSorting
          [videoPart (some (bytes "h264")), videoPart (some (bytes "h264"))]).layout = some layout ∧
        layout.matchesMuxedOutput insertionSorting (fun _ _ => false)
          (videoPart (some (bytes "h264"))).streams = true := by
  have hcompatible : (assessStreamCompatibility insertionSorting
      [videoPart (some (bytes "h264")), videoPart (some (bytes "h264"))]).compatibility =
      .compatible := by decide
  obtain ⟨layout, hlayout, hmatches⟩ := (assessStreamCompatibility_verdict insertionSorting
    (fun _ _ => false) _).2.2 hcompatible
  exact ⟨hcompatible, layout, hlayout,
    hmatches _ List.mem_cons_self (List.nodup_singleton _)⟩

/-- A single part is not compatible, although it agrees with itself; and two parts that
differ are only found to differ if the part between them, of which the codec is not known,
is not the reference. -/
theorem verdict_depends_on_order :
    (assessStreamCompatibility insertionSorting [videoPart (some (bytes "h264"))]).compatibility =
        .unknown ∧
      (assessStreamCompatibility insertionSorting [videoPart (some (bytes "h264")),
        videoPart none, videoPart (some (bytes "hevc"))]).compatibility = .incompatible ∧
      (assessStreamCompatibility insertionSorting [videoPart none,
        videoPart (some (bytes "h264")), videoPart (some (bytes "hevc"))]).compatibility =
        .unknown := by
  decide

end NixConfig.MediaRepair.Controller
