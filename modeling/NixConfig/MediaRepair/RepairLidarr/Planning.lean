/-
# What planning depends on

A Lidarr job is planned again when its planning inputs change: the album, its releases and
tracks, and the audio files. Two functions say so. The fingerprint is a digest of the inputs,
sorted and encoded; the change compares them section by section and names those that differ.
They agree because an encoding can be read back, except for bytes that are not UTF-8.
-/

import Mathlib.Data.List.Lex
import NixConfig.Data.JsonReading
import NixConfig.Data.Sorting
import NixConfig.MediaRepair.LidarrContracts

namespace NixConfig.MediaRepair.RepairLidarr

open Data
open Contracts (Digest orNull rollingDigest sha256Text sha256Text_injective texts)
open LidarrContracts

deriving instance DecidableEq for Album, Release, Track, Tag, LidarrContracts.Stream, Artifact

/-! ## Inputs -/

@[ext]
structure PlanningInputs where
  album : Album
  releases : List Release
  tracks : List Track
  artifacts : List Artifact

/-- `sort.Slice`, as it is called for each of the lists. -/
structure InputSorting where
  releases : Sorting Release.releaseID
  tracks : Sorting Track.trackID
  artifacts : Sorting fun artifact : Artifact => byteOrder artifact.artifactID

section Planning

variable (sorting : InputSorting)

def planningCaseInputs (repairCase : Case) : PlanningInputs where
  album := repairCase.album
  releases := sorting.releases.sort repairCase.releases
  tracks := sorting.tracks.sort repairCase.tracks
  artifacts := sorting.artifacts.sort repairCase.artifacts

/-! ### Encoding -/

def PlanningInputs.json (inputs : PlanningInputs) : Json Text := .object [
  ("album", inputs.album.json), ("releases", .array (inputs.releases.map Release.json)),
  ("tracks", .array (inputs.tracks.map Track.json)),
  ("artifacts", .array (inputs.artifacts.map Artifact.json))]

/-- What `planningFingerprint` hashes. -/
def planningText (repairCase : Case) : Text :=
  utf8 (planningCaseInputs sorting repairCase).json.encode

def planningFingerprint (sum256 : Text → Digest) (repairCase : Case) : Text :=
  sha256Text (sum256 (planningText sorting repairCase))

/-! ### Changes -/

def planningChange (previous current : Case) : Text :=
  let before := planningCaseInputs sorting previous
  let after := planningCaseInputs sorting current
  let changes :=
    (if before.artifacts ≠ after.artifacts then [bytes "audio files"] else []) ++
    (if before.album ≠ after.album then [bytes "target album"] else []) ++
    (if before.releases ≠ after.releases then [bytes "release catalog"] else []) ++
    (if before.tracks ≠ after.tracks then [bytes "track catalog/status"] else [])
  (bytes ", ").intercalate changes

/-! ## Agreement -/

theorem orNull_injective {α : Type} {write : α → Json Text} (hwrite : Function.Injective write)
    (hnull : ∀ value, write value ≠ .null) : Function.Injective (orNull write) := by
  intro value value' heq
  cases value with
  | none =>
    cases value' with
    | none => rfl
    | some value' => exact absurd heq.symm (hnull value')
  | some value =>
    cases value' with
    | none => exact absurd heq (hnull value)
    | some value' => exact congrArg some (hwrite heq)

theorem string_injective : Function.Injective (Json.string : Text → Json Text) :=
  fun _ _ => Json.string.inj

theorem orNull_number_injective : Function.Injective (orNull (Json.number : Int → Json Text)) :=
  orNull_injective (fun _ _ => Json.number.inj) nofun

theorem texts_injective : Function.Injective texts := by
  intro values values' heq
  exact List.map_injective_iff.mpr string_injective (Json.array.inj heq)

theorem albumJson_injective : Function.Injective Album.json := by
  intro album album' heq
  obtain ⟨⟩ := album
  obtain ⟨⟩ := album'
  simpa [Album.json] using heq

theorem releaseJson_injective : Function.Injective Release.json := by
  intro release release' heq
  obtain ⟨⟩ := release
  obtain ⟨⟩ := release'
  simpa [Release.json, texts_injective.eq_iff] using heq

theorem trackJson_injective : Function.Injective Track.json := by
  intro track track' heq
  obtain ⟨⟩ := track
  obtain ⟨⟩ := track'
  simpa [Track.json] using heq

theorem tagJson_injective : Function.Injective Tag.json := by
  intro tag tag' heq
  obtain ⟨⟩ := tag
  obtain ⟨⟩ := tag'
  simpa [Tag.json] using heq

theorem streamJson_injective : Function.Injective Stream.json := by
  intro stream stream' heq
  obtain ⟨⟩ := stream
  obtain ⟨⟩ := stream'
  have hcodec := orNull_injective string_injective nofun
  simpa [Stream.json, hcodec.eq_iff, orNull_number_injective.eq_iff] using heq

theorem artifactJson_injective : Function.Injective Artifact.json := by
  intro artifact artifact' heq
  obtain ⟨⟩ := artifact
  obtain ⟨⟩ := artifact'
  have hformats := orNull_injective texts_injective nofun
  have htags := List.map_injective_iff.mpr tagJson_injective
  have hstreams := List.map_injective_iff.mpr streamJson_injective
  simpa [Artifact.json, orNull_number_injective.eq_iff, hformats.eq_iff, htags.eq_iff,
    hstreams.eq_iff] using heq

/-- Encoded inputs determine the inputs. -/
theorem planningInputs_json_injective : Function.Injective PlanningInputs.json := by
  intro inputs inputs' heq
  obtain ⟨⟩ := inputs
  obtain ⟨⟩ := inputs'
  have hreleases := List.map_injective_iff.mpr releaseJson_injective
  have htracks := List.map_injective_iff.mpr trackJson_injective
  have hartifacts := List.map_injective_iff.mpr artifactJson_injective
  simpa [PlanningInputs.json, albumJson_injective.eq_iff, hreleases.eq_iff, htracks.eq_iff,
    hartifacts.eq_iff] using heq

/-- All strings that planning depends on are UTF-8. -/
def WellFormed (repairCase : Case) : Prop :=
  ∀ text ∈ (planningCaseInputs sorting repairCase).json.strings, none ∉ runes text

/-- Joined texts that are not empty are not empty. -/
theorem eq_nil_of_intercalate {separator : Text} {texts : List Text}
    (htexts : ∀ text ∈ texts, text ≠ []) (heq : separator.intercalate texts = []) :
    texts = [] := by
  cases texts with
  | nil => rfl
  | cons text texts =>
    obtain ⟨htext, -⟩ := List.forall_mem_cons.mp htexts
    cases texts with
    | nil => exact absurd (by simpa using heq) htext
    | cons next texts => simp [List.intercalate_cons_cons, htext] at heq

/-- No change is reported exactly when the inputs are the same. -/
theorem planningChange_eq_nil {previous current : Case} :
    planningChange sorting previous current = [] ↔
      planningCaseInputs sorting previous = planningCaseInputs sorting current := by
  have hnames : bytes "audio files" ≠ [] ∧ bytes "target album" ≠ [] ∧
      bytes "release catalog" ≠ [] ∧ bytes "track catalog/status" ≠ [] := by decide
  have hpiece {changed : Prop} [Decidable changed] {name : Text} (hname : name ≠ []) :
      ∀ text ∈ if changed then [name] else [], text ≠ [] := by
    intro text hmem
    split at hmem
    · rwa [List.mem_singleton.mp hmem]
    · cases hmem
  constructor
  · intro hempty
    have hchanges := eq_nil_of_intercalate (fun text hmem => ?_) hempty
    · simp only [List.append_eq_nil_iff, ite_eq_right_iff, List.cons_ne_self, imp_false,
        not_not] at hchanges
      obtain ⟨⟨⟨hartifacts, halbum⟩, hreleases⟩, htracks⟩ := hchanges
      exact PlanningInputs.ext halbum hreleases htracks hartifacts
    · simp only [List.mem_append] at hmem
      rcases hmem with ((hmem | hmem) | hmem) | hmem
      · exact hpiece hnames.1 text hmem
      · exact hpiece hnames.2.1 text hmem
      · exact hpiece hnames.2.2.1 text hmem
      · exact hpiece hnames.2.2.2 text hmem
  · intro hsame
    simp [planningChange, hsame]

/-- The identifiers of a case are distinct. -/
structure DistinctIDs (repairCase : Case) : Prop where
  releases : (repairCase.releases.map Release.releaseID).Nodup
  tracks : (repairCase.tracks.map Track.trackID).Nodup
  artifacts : (repairCase.artifacts.map Artifact.artifactID).Nodup

/-- The order of releases, tracks and artifacts does not matter. -/
theorem planningCaseInputs_perm {repairCase other : Case} (hdistinct : DistinctIDs repairCase)
    (halbum : repairCase.album = other.album) (hreleases : repairCase.releases.Perm other.releases)
    (htracks : repairCase.tracks.Perm other.tracks)
    (hartifacts : repairCase.artifacts.Perm other.artifacts) :
    planningCaseInputs sorting repairCase = planningCaseInputs sorting other := by
  have hnodup : (repairCase.artifacts.map fun artifact => byteOrder artifact.artifactID).Nodup := by
    have hmap := hdistinct.artifacts.map byteOrder_injective
    rwa [List.map_map] at hmap
  simp only [planningCaseInputs, halbum,
    sorting.releases.sort_eq_of_perm hreleases hdistinct.releases,
    sorting.tracks.sort_eq_of_perm htracks hdistinct.tracks,
    sorting.artifacts.sort_eq_of_perm hartifacts hnodup]

/-- The planning fingerprint does not depend on the order of releases, tracks and artifacts,
and where two hashed texts have different digests, no change is reported exactly when the
fingerprint stays the same. -/
theorem planningChange_iff_planningFingerprint (sum256 : Text → Digest) :
    (∀ repairCase other : Case, DistinctIDs repairCase → repairCase.album = other.album →
      repairCase.releases.Perm other.releases → repairCase.tracks.Perm other.tracks →
      repairCase.artifacts.Perm other.artifacts →
      planningFingerprint sorting sum256 repairCase = planningFingerprint sorting sum256 other) ∧
    ∀ previous current : Case, WellFormed sorting previous →
      Set.InjOn sum256 {planningText sorting previous, planningText sorting current} →
      (planningChange sorting previous current = [] ↔
        planningFingerprint sorting sum256 previous =
          planningFingerprint sorting sum256 current) := by
  refine ⟨fun repairCase other hdistinct halbum hreleases htracks hartifacts => ?_,
    fun previous current hwellFormed hinjective => ?_⟩
  · rw [planningFingerprint, planningFingerprint, planningText, planningText,
      planningCaseInputs_perm sorting hdistinct halbum hreleases htracks hartifacts]
  · rw [planningChange_eq_nil]
    constructor
    · intro hsame
      rw [planningFingerprint, planningFingerprint, planningText, planningText, hsame]
    · intro hsame
      have hdigests : sum256 (planningText sorting previous) =
          sum256 (planningText sorting current) :=
        sha256Text_injective hsame
      have htexts : planningText sorting previous = planningText sorting current :=
        hinjective (Set.mem_insert _ _) (Set.mem_insert_of_mem _ rfl) hdigests
      exact planningInputs_json_injective (Json.eq_of_encode_eq hwellFormed (utf8_injective htexts))

end Planning

/-- Insertion sort for all lists. -/
def insertionSorting : InputSorting where
  releases := Sorting.insertion Release.releaseID
  tracks := Sorting.insertion Track.trackID
  artifacts := Sorting.insertion fun artifact : Artifact => byteOrder artifact.artifactID

/-- An edition of the album. -/
def edition (releaseID : Int) : Release :=
  ⟨releaseID, bytes "E", bytes "D", [], [], [], [], 1, 1, true⟩

/-- A case with one audio file. -/
def fileCase (relativePath : Text) (editions : List Int) : Case where
  schemaVersion := schemaVersion
  caseID := []
  observedAt := 0
  queue := ⟨1, [], [], []⟩
  album := ⟨1, 1, bytes "C", bytes "D", true⟩
  releases := editions.map edition
  tracks := []
  artifacts := [⟨bytes "artifact:1", relativePath, [], 1, none, some [bytes "flac"], [], []⟩]
  assessments := []
  capabilities := []

/-- Editions in another order leave the fingerprint as it is; a moved file changes it. -/
theorem moved_file_reported :
    planningFingerprint insertionSorting rollingDigest (fileCase (bytes "a") [1, 2]) =
        planningFingerprint insertionSorting rollingDigest (fileCase (bytes "a") [2, 1]) ∧
      planningChange insertionSorting (fileCase (bytes "a") [2, 1]) (fileCase (bytes "b") [2, 1]) ≠
        [] ∧
      planningFingerprint insertionSorting rollingDigest (fileCase (bytes "a") [2, 1]) ≠
        planningFingerprint insertionSorting rollingDigest (fileCase (bytes "b") [2, 1]) := by
  have hagree := planningChange_iff_planningFingerprint insertionSorting rollingDigest
  have hdistinct : DistinctIDs (fileCase (bytes "a") [1, 2]) :=
    ⟨by decide, by decide, by decide +kernel⟩
  have hperm : (fileCase (bytes "a") [1, 2]).releases.Perm (fileCase (bytes "a") [2, 1]).releases :=
    .swap ..
  have hchange : planningChange insertionSorting (fileCase (bytes "a") [2, 1])
      (fileCase (bytes "b") [2, 1]) ≠ [] := by decide +kernel
  have hwellFormed : WellFormed insertionSorting (fileCase (bytes "a") [2, 1]) := by
    unfold WellFormed
    decide +kernel
  have hdigests : rollingDigest (planningText insertionSorting (fileCase (bytes "a") [2, 1])) ≠
      rollingDigest (planningText insertionSorting (fileCase (bytes "b") [2, 1])) :=
    fun hsame => absurd (congrArg Subtype.val hsame) (by decide +kernel)
  have hinjective : Set.InjOn rollingDigest
      {planningText insertionSorting (fileCase (bytes "a") [2, 1]),
        planningText insertionSorting (fileCase (bytes "b") [2, 1])} := by
    rintro _ (rfl | rfl) _ (rfl | rfl) hsame
    · rfl
    · exact absurd hsame hdigests
    · exact absurd hsame.symm hdigests
    · rfl
  exact ⟨hagree.1 _ _ hdistinct rfl hperm (.refl _) (.refl _), hchange,
    mt (hagree.2 _ _ hwellFormed hinjective).mpr hchange⟩

/-- Two paths that are not UTF-8 have one fingerprint, whatever the digest, and yet a change
is reported. -/
theorem ill_formed_path_reported :
    DistinctIDs (fileCase [0xFF] []) ∧ DistinctIDs (fileCase [0xFE] []) ∧
      planningChange insertionSorting (fileCase [0xFF] []) (fileCase [0xFE] []) =
        bytes "audio files" ∧
      ∀ sum256 : Text → Digest,
        planningFingerprint insertionSorting sum256 (fileCase [0xFF] []) =
          planningFingerprint insertionSorting sum256 (fileCase [0xFE] []) := by
  have htext : planningText insertionSorting (fileCase [0xFF] []) =
      planningText insertionSorting (fileCase [0xFE] []) := by decide +kernel
  refine ⟨⟨by decide, by decide, by decide⟩, ⟨by decide, by decide, by decide⟩, by decide +kernel,
    fun sum256 => ?_⟩
  rw [planningFingerprint, planningFingerprint, htext]

end NixConfig.MediaRepair.RepairLidarr
