/-
# The planner's check of Lidarr decisions

The planner checks a decision before it hands it out, and the controller checks
it again before it acts on it. The planner collects all that is wrong; the
controller stops at the first thing. The planner compares sets; the controller
walks over the mappings with what it has seen. A decision that the planner lets
through is accepted, and one that the controller would accept is let through.

Both rest on the decision schema, which decisions satisfy on both sides: it is
the schema that makes an import map at least one track.
-/

import Mathlib.Data.List.Dedup
import Mathlib.Data.List.Lex
import NixConfig.Data.Sorting
import NixConfig.MediaRepair.LidarrRepair.Validate

namespace NixConfig.MediaRepairPlanner

open Data Semantics MediaRepair.LidarrContracts MediaRepair.LidarrRepair
open MediaRepair.Contracts.CaseSchema (isOpaqueId isPrintable isSha256Id)

/-! ## Decisions of the schema -/

/-- `$defs/id` -/
def IsId (value : Int) : Prop := 1 ≤ value ∧ value ≤ 9007199254740991

/-- `$defs/opaqueId` -/
def OpaqueId (value : Text) : Prop := isOpaqueId (chars value) = true

/-- `$defs/sha256Id` -/
def Sha256Id (value : Text) : Prop := isSha256Id (chars value) = true

/-- `$defs/explanation` -/
def Explanation (value : Text) : Prop :=
  1 ≤ (chars value).length ∧ (chars value).length ≤ 1200 ∧ ∀ c ∈ chars value, isPrintable c = true

/-- `evidence_refs` -/
structure EvidenceRefs (references : List Text) : Prop where
  items : ∀ reference ∈ references, OpaqueId reference
  maxItems : references.length ≤ 64
  uniqueItems : references.Nodup

inductive Reason
  | noRepairNeeded
  | ambiguousAlbum
  | ambiguousRelease
  | ambiguousTracks
  | incompleteRelease
  | unsupportedRepair
  | unsafeToRepair
  deriving DecidableEq

/-- `$defs/noRepair` -/
structure NoRepair where
  caseID : Text
  reason : Reason
  evidenceRefs : List Text
  explanation : Text
  caseID_valid : Sha256Id caseID
  evidenceRefs_valid : EvidenceRefs evidenceRefs
  explanation_valid : Explanation explanation

/-- `$defs/importMissingTracks` -/
structure ImportMissingTracks where
  caseID : Text
  capabilityID : Text
  albumID : Int
  releaseID : Int
  mappings : List TrackMapping
  evidenceRefs : List Text
  explanation : Text
  caseID_valid : Sha256Id caseID
  capabilityID_valid : OpaqueId capabilityID
  albumID_valid : IsId albumID
  releaseID_valid : IsId releaseID
  mappings_valid : ∀ mapping ∈ mappings, OpaqueId mapping.artifactID ∧ IsId mapping.trackID
  minItems : 1 ≤ mappings.length
  maxItems : mappings.length ≤ 1024
  evidenceRefs_valid : EvidenceRefs evidenceRefs
  explanation_valid : Explanation explanation

/-- A decision that satisfies the schema. -/
inductive LidarrRepairDecisionV3
  | noRepair (value : NoRepair)
  | importMissingTracks (value : ImportMissingTracks)

namespace LidarrRepairDecisionV3

def caseID : LidarrRepairDecisionV3 → Text
  | .noRepair value => value.caseID
  | .importMissingTracks value => value.caseID

def evidenceRefs : LidarrRepairDecisionV3 → List Text
  | .noRepair value => value.evidenceRefs
  | .importMissingTracks value => value.evidenceRefs

/-- What `DecodeDecision` makes of the decision in the controller. -/
def decoded : LidarrRepairDecisionV3 → Decision
  | .noRepair value => ⟨.noRepair, some ⟨schemaVersion, value.caseID, value.evidenceRefs⟩, none⟩
  | .importMissingTracks value =>
    ⟨.importMissingTracks, none, some ⟨schemaVersion, value.caseID, value.capabilityID,
      value.albumID, value.releaseID, value.mappings, value.evidenceRefs⟩⟩

end LidarrRepairDecisionV3

/-! ## Violations -/

inductive ViolationCode
  | caseIdMismatch
  | unknownEvidence
  | unknownCapability
  | invalidField
  deriving DecidableEq

structure DecisionViolation where
  code : ViolationCode
  path : List String
  rejectedValues : List Text
  allowedValues : List Text
  deriving DecidableEq

/-- `sorted` -/
def sortedTexts (values : List Text) : List Text := (Sorting.insertion byteOrder).sort values

variable {values references : List Text} {name : String} {capability : Capability}
  {mappings : List TrackMapping}

theorem mem_sortedTexts {value : Text} :
    value ∈ sortedTexts values ↔ value ∈ values :=
  ((Sorting.insertion byteOrder).perm values).mem_iff

theorem sortedTexts_eq_nil : sortedTexts values = [] ↔ values = [] := by
  constructor
  · intro hsorted
    have hperm := (Sorting.insertion byteOrder).perm values
    rw [show (Sorting.insertion byteOrder).sort values = [] from hsorted] at hperm
    exact hperm.nil_eq.symm
  · rintro rfl
    rfl

/-- `_reference_ids` -/
def referenceIds (repairCase : Case) : List Text :=
  sortedTexts (repairCase.artifacts.map Artifact.artifactID ++
    repairCase.capabilities.map Capability.capabilityID).dedup

/-- `_invalid` -/
def invalid (path : List String) (actual allowed : List Text) : DecisionViolation :=
  ⟨.invalidField, path, actual, allowed⟩

def checkCaseId (repairCase : Case) (caseID : Text) : List DecisionViolation :=
  if caseID ≠ repairCase.caseID then
    [⟨.caseIdMismatch, ["case_id"], [caseID], [repairCase.caseID]⟩]
  else []

def checkEvidence (repairCase : Case) (evidenceRefs : List Text) : List DecisionViolation :=
  let references := referenceIds repairCase
  let unknown := sortedTexts (evidenceRefs.filter (· ∉ references))
  if unknown ≠ [] then [⟨.unknownEvidence, ["evidence_refs"], unknown, references⟩] else []

/-- A field whose value, as text, has to be the one of the capability. -/
def checkField (name : String) (actual allowed : Int) : List DecisionViolation :=
  if numeral actual ∉ [numeral allowed] then [invalid [name] [numeral actual] [numeral allowed]]
  else []

/-- The values of the mappings for a field: no value twice, and each of them allowed. -/
def checkMapped (name : String) (actual allowed : List Text) : List DecisionViolation :=
  if actual.dedup.length ≠ actual.length ∨ ¬ actual ⊆ allowed then
    [invalid ["mappings", name] actual allowed]
  else []

def checkImport (repairCase : Case) (value : ImportMissingTracks) : List DecisionViolation :=
  match repairCase.capabilities.find? (·.capabilityID = value.capabilityID) with
  | none =>
    [⟨.unknownCapability, ["capability_id"], [value.capabilityID],
      repairCase.capabilities.map Capability.capabilityID⟩]
  | some capability =>
    checkField "album_id" value.albumID capability.albumID ++
      checkField "release_id" value.releaseID capability.releaseID ++
      checkMapped "artifact_id" (value.mappings.map TrackMapping.artifactID)
        capability.artifactIDs ++
      checkMapped "track_id" (value.mappings.map fun mapping => numeral mapping.trackID)
        (capability.trackIDs.map numeral)

def validateDecisionForCase (repairCase : Case) (decision : LidarrRepairDecisionV3) :
    List DecisionViolation :=
  checkCaseId repairCase decision.caseID ++ checkEvidence repairCase decision.evidenceRefs ++
    match decision with
    | .noRepair _ => []
    | .importMissingTracks value => checkImport repairCase value

/-! ## What both accept -/

/-- The mappings of a decision stay inside a capability and are one to one. -/
structure Within (capability : Capability) (mappings : List TrackMapping) : Prop where
  artifacts : ∀ mapping ∈ mappings, mapping.artifactID ∈ capability.artifactIDs
  tracks : ∀ mapping ∈ mappings, mapping.trackID ∈ capability.trackIDs
  artifacts_nodup : (mappings.map TrackMapping.artifactID).Nodup
  tracks_nodup : (mappings.map TrackMapping.trackID).Nodup

/-- An import selects a capability, with its album and release, and stays inside it. -/
def Selects (repairCase : Case) (value : ImportMissingTracks) : Prop :=
  ∃ capability, repairCase.capabilities.find? (·.capabilityID = value.capabilityID) =
      some capability ∧
    value.albumID = capability.albumID ∧ value.releaseID = capability.releaseID ∧
    Within capability value.mappings

def Known (repairCase : Case) (references : List Text) : Prop :=
  ∀ reference ∈ references, reference ∈ repairCase.artifacts.map Artifact.artifactID ++
    repairCase.capabilities.map Capability.capabilityID

/-! ## The planner's side -/

variable {value : ImportMissingTracks} {repairCase : Case}

theorem checkCaseId_eq_nil {caseID : Text} :
    checkCaseId repairCase caseID = [] ↔ caseID = repairCase.caseID := by
  rw [checkCaseId]
  split
  · simpa
  · simpa using ‹¬ caseID ≠ repairCase.caseID›

theorem checkEvidence_eq_nil :
    checkEvidence repairCase references = [] ↔ Known repairCase references := by
  have hmem (reference : Text) : reference ∈ referenceIds repairCase ↔
      reference ∈ repairCase.artifacts.map Artifact.artifactID ++
        repairCase.capabilities.map Capability.capabilityID := by
    rw [referenceIds, mem_sortedTexts, List.mem_dedup]
  have hunknown : sortedTexts (references.filter (· ∉ referenceIds repairCase)) = [] ↔
      Known repairCase references := by
    rw [sortedTexts_eq_nil, List.filter_eq_nil_iff]
    refine forall₂_congr fun reference _ => ?_
    rw [← hmem]
    simp
  rw [← hunknown, checkEvidence]
  split
  · rename_i hne
    exact iff_of_false (List.cons_ne_nil _ _) hne
  · rename_i hnil
    exact iff_of_true rfl (not_not.mp hnil)

theorem checkField_eq_nil {actual allowed : Int} :
    checkField name actual allowed = [] ↔ actual = allowed := by
  rw [checkField]
  split
  · rename_i hne
    refine iff_of_false (List.cons_ne_nil _ _) fun heq => hne ?_
    rw [heq]
    exact List.mem_singleton_self _
  · rename_i hmem
    exact iff_of_true rfl (numeral_injective (List.mem_singleton.mp (not_not.mp hmem)))

theorem checkMapped_eq_nil {actual allowed : List Text} :
    checkMapped name actual allowed = [] ↔ actual.Nodup ∧ actual ⊆ allowed := by
  have hlength : actual.dedup.length = actual.length ↔ actual.Nodup := by
    constructor
    · intro hlength
      rw [← List.dedup_eq_self]
      exact (List.dedup_sublist actual).eq_of_length hlength
    · intro hnodup
      rw [hnodup.dedup]
  rw [← hlength, checkMapped]
  split
  · rename_i hbad
    refine iff_of_false (List.cons_ne_nil _ _) fun hgood => ?_
    exact hbad.elim (fun hne => hne hgood.1) fun hnot => hnot hgood.2
  · rename_i hgood
    push Not at hgood
    exact iff_of_true rfl hgood

theorem checkImport_eq_nil :
    checkImport repairCase value = [] ↔ Selects repairCase value := by
  rw [checkImport]
  split
  · rename_i hnone
    refine iff_of_false (List.cons_ne_nil _ _) ?_
    rintro ⟨capability, hfound, -⟩
    rw [hnone] at hfound
    cases hfound
  · rename_i capability hfound
    rw [List.append_eq_nil_iff, List.append_eq_nil_iff, List.append_eq_nil_iff, checkField_eq_nil,
      checkField_eq_nil, checkMapped_eq_nil, checkMapped_eq_nil]
    have hnumerals : (value.mappings.map fun mapping => numeral mapping.trackID) =
        (value.mappings.map TrackMapping.trackID).map numeral := by
      rw [List.map_map]
      rfl
    rw [hnumerals, List.nodup_map_iff numeral_injective]
    constructor
    · rintro ⟨⟨⟨halbum, hrelease⟩, hartifacts, hwithin⟩, htracks, hwithin'⟩
      refine ⟨capability, hfound, halbum, hrelease, fun mapping hmem => ?_, fun mapping hmem => ?_,
        hartifacts, htracks⟩
      · exact hwithin (List.mem_map_of_mem hmem)
      · have hnumeral := hwithin' (List.mem_map_of_mem (List.mem_map_of_mem hmem))
        exact (List.mem_map_of_injective numeral_injective).mp hnumeral
    · rintro ⟨other, hother, halbum, hrelease, hwithin⟩
      cases hfound.symm.trans hother
      refine ⟨⟨⟨halbum, hrelease⟩, hwithin.artifacts_nodup, fun artifact hmem => ?_⟩,
        hwithin.tracks_nodup, List.map_subset _ fun track hmem => ?_⟩
      · obtain ⟨mapping, hmapping, rfl⟩ := List.mem_map.mp hmem
        exact hwithin.artifacts mapping hmapping
      · obtain ⟨mapping, hmapping, rfl⟩ := List.mem_map.mp hmem
        exact hwithin.tracks mapping hmapping

/-! ## The controller's side -/

theorem validateEvidenceReferences_eq_ok :
    validateEvidenceReferences repairCase references = .ok () ↔ Known repairCase references := by
  rw [validateEvidenceReferences]
  split_ifs with hall
  · refine iff_of_true rfl fun reference hmem => ?_
    simpa using List.all_eq_true.mp hall reference hmem
  · refine iff_of_false (by simp) fun hknown => hall (List.all_eq_true.mpr fun reference hmem => ?_)
    simpa using hknown reference hmem

/-- The loop over the mappings accepts those that are allowed, differ from each other and
from what it has seen, if there are any. -/
theorem validateMappings_eq_ok {artifacts : List Text} {tracks : List Int}
    (hartifacts : artifacts.Nodup) (htracks : tracks.Nodup) :
    validateMappings capability artifacts tracks mappings = .ok () ↔
      (∀ mapping ∈ mappings, mapping.artifactID ∈ capability.artifactIDs ∧
        mapping.trackID ∈ capability.trackIDs) ∧
      (mappings.map TrackMapping.artifactID ++ artifacts).Nodup ∧
      (mappings.map TrackMapping.trackID ++ tracks).Nodup ∧ (mappings ≠ [] ∨ tracks ≠ []) := by
  induction mappings generalizing artifacts tracks with
  | nil =>
    rw [validateMappings]
    split_ifs with hnil
    · simp [hnil]
    · simp [hnil, hartifacts, htracks]
  | cons mapping rest ih =>
    rw [validateMappings, List.forall_mem_cons, List.map_cons, List.map_cons, List.cons_append,
      List.cons_append, List.nodup_cons, List.nodup_cons, List.mem_append, List.mem_append]
    split
    · rename_i houtside
      refine iff_of_false (by simp) fun hall => ?_
      exact houtside.elim (fun hnot => hnot hall.1.1.1) fun hnot => hnot hall.1.1.2
    rename_i hinside
    push Not at hinside
    split
    · rename_i hseen
      exact iff_of_false (by simp) fun hall => hall.2.1.1 (.inr hseen)
    rename_i hartifact
    split
    · rename_i hseen
      exact iff_of_false (by simp) fun hall => hall.2.2.1.1 (.inr hseen)
    rename_i htrack
    -- Moving the head over to the values seen does not change which there are.
    rw [ih (hartifacts.cons hartifact) (htracks.cons htrack), List.perm_middle.nodup_iff,
      List.perm_middle.nodup_iff, List.nodup_cons, List.nodup_cons, List.mem_append, List.mem_append]
    simp [hinside]

theorem within_of_validateMappings (hne : mappings ≠ []) :
    validateMappings capability [] [] mappings = .ok () ↔ Within capability mappings := by
  rw [validateMappings_eq_ok List.nodup_nil List.nodup_nil, List.append_nil, List.append_nil]
  constructor
  · rintro ⟨hinside, hartifacts, htracks, -⟩
    exact ⟨fun mapping hmem => (hinside mapping hmem).1, fun mapping hmem => (hinside mapping hmem).2,
      hartifacts, htracks⟩
  · intro hwithin
    exact ⟨fun mapping hmem => ⟨hwithin.artifacts mapping hmem, hwithin.tracks mapping hmem⟩,
      hwithin.artifacts_nodup, hwithin.tracks_nodup, .inl hne⟩

/-- The controller accepts an import if its references are known and it selects a
capability. -/
theorem validateImport_eq_ok (hactions : ∀ capability ∈ repairCase.capabilities,
      capability.action = actionImportMissingTracks) :
    validateImport repairCase ⟨schemaVersion, value.caseID, value.capabilityID, value.albumID,
        value.releaseID, value.mappings, value.evidenceRefs⟩ = .ok () ↔
      Known repairCase value.evidenceRefs ∧ Selects repairCase value := by
  have hne : value.mappings ≠ [] := List.ne_nil_of_length_pos value.minItems
  rw [validateImport, bind_eq_ok, ← validateEvidenceReferences_eq_ok]
  constructor
  · rintro ⟨_, hevidence, hrest⟩
    refine ⟨hevidence, ?_⟩
    split at hrest
    · cases hrest
    rename_i capability hfound
    split_ifs at hrest with _ hsame
    push Not at hsame
    exact ⟨capability, hfound, hsame.1, hsame.2, (within_of_validateMappings hne).mp hrest⟩
  · rintro ⟨hevidence, capability, hfound, halbum, hrelease, hwithin⟩
    refine ⟨(), hevidence, ?_⟩
    simp only [hfound, hactions capability (List.mem_of_find?_eq_some hfound), halbum, hrelease,
      ne_eq, not_true_eq_false, or_self, if_false]
    exact (within_of_validateMappings hne).mpr hwithin

/-! ## Agreement -/

/-- Planner and controller accept the same decisions on a case of their schema version
whose capabilities are all imports of missing tracks. -/
theorem violations_nil_iff_valid {repairCase : Case}
    (hversion : repairCase.schemaVersion = schemaVersion)
    (hactions : ∀ capability ∈ repairCase.capabilities,
      capability.action = actionImportMissingTracks)
    (decision : LidarrRepairDecisionV3) :
    validateDecisionForCase repairCase decision = [] ↔
      validateDecision repairCase decision.decoded = .ok () := by
  -- Both compare the case first; what the planner collects is empty exactly if each of its parts
  -- is.
  have hcontroller : validateDecision repairCase decision.decoded = .ok () ↔
      decision.caseID = repairCase.caseID ∧
        validateDecisionSelection repairCase decision.decoded = .ok () := by
    have hcase : decision.decoded.caseID = decision.caseID := by
      cases decision with
      | noRepair value => rfl
      | importMissingTracks value => rfl
    rw [validateDecision, hcase]
    split_ifs with hne
    · exact iff_of_false (by simp) fun hall => hne hall.1
    · exact (and_iff_right (not_not.mp hne)).symm
  unfold validateDecisionForCase
  rw [hcontroller, List.append_eq_nil_iff, List.append_eq_nil_iff, checkCaseId_eq_nil,
    checkEvidence_eq_nil, and_assoc]
  refine and_congr_right fun _ => ?_
  -- the version is a constant of the schema on both sides
  have hdecoded : decisionVersion decision.decoded = repairCase.schemaVersion := by
    cases decision with
    | noRepair value => exact hversion.symm
    | importMissingTracks value => exact hversion.symm
  rw [validateDecisionSelection, if_neg (not_not.mpr hversion), if_neg (not_not.mpr hdecoded)]
  cases decision with
  | noRepair value =>
    exact (and_iff_left rfl).trans validateEvidenceReferences_eq_ok.symm
  | importMissingTracks value =>
    exact (and_congr_right fun _ => checkImport_eq_nil).trans (validateImport_eq_ok hactions).symm

/-! ### A single missing track

An album whose second track is missing, and the capability to import an artifact as
that track.
-/

def singlesCase : Case where
  schemaVersion := schemaVersion
  caseID := MediaRepair.Contracts.sha256Text
    (MediaRepair.Contracts.rollingDigest (bytes "singles"))
  observedAt := 0
  queue := ⟨1, bytes "D", bytes "download:F", []⟩
  album := ⟨2, 3, bytes "C", bytes "D", true⟩
  releases := [⟨4, bytes "E", bytes "D", [], [], [], [], 2, 1, true⟩]
  tracks := [⟨5, 4, bytes "1", 1, 1, bytes "A", 0, true⟩, ⟨6, 4, bytes "2", 2, 1, bytes "B", 0, false⟩]
  artifacts := [⟨bytes "artifact:1", bytes "b", bytes "sha256:" ++ hexEncode (List.replicate 32 0),
    1, none, some [bytes "flac"], [], []⟩]
  assessments := [⟨bytes "artifact:1", some 2, some 4, [6], none, none, none, [], []⟩]
  capabilities := [⟨actionImportMissingTracks, bytes "capability:import_missing_tracks:4", 2,
    [bytes "artifact:1"], 4, [6]⟩]

theorem singles_sha256Id : Sha256Id singlesCase.caseID := by
  rw [Sha256Id, singlesCase, MediaRepair.Contracts.sha256Text_eq_utf8, chars_utf8]
  exact MediaRepair.Contracts.isSha256Id_digest _

theorem singles_opaqueId : OpaqueId (bytes "capability:import_missing_tracks:4") := by
  rw [OpaqueId, bytes, chars_utf8]
  decide +kernel

theorem singles_mapping : ∀ mapping ∈ [(⟨bytes "artifact:1", 6⟩ : TrackMapping)],
    OpaqueId mapping.artifactID ∧ IsId mapping.trackID := by
  intro mapping hmem
  rw [List.mem_singleton.mp hmem]
  refine ⟨?_, by decide, by decide⟩
  rw [OpaqueId, bytes, chars_utf8]
  decide +kernel

theorem singles_evidenceRefs : EvidenceRefs [] := ⟨by simp, by simp, List.nodup_nil⟩

theorem singles_explanation : Explanation (bytes "one track") := by
  rw [Explanation, bytes, chars_utf8]
  decide +kernel

theorem isId_two : IsId 2 := ⟨by decide, by decide⟩

theorem isId_four : IsId 4 := ⟨by decide, by decide⟩

/-- The import of the missing track, as a decision of the schema. -/
def singlesSelection : ImportMissingTracks where
  caseID := singlesCase.caseID
  capabilityID := bytes "capability:import_missing_tracks:4"
  albumID := 2
  releaseID := 4
  mappings := [⟨bytes "artifact:1", 6⟩]
  evidenceRefs := []
  explanation := bytes "one track"
  caseID_valid := singles_sha256Id
  capabilityID_valid := singles_opaqueId
  albumID_valid := isId_two
  releaseID_valid := isId_four
  mappings_valid := singles_mapping
  minItems := Nat.le_refl 1
  maxItems := Nat.le_add_left 1 1023
  evidenceRefs_valid := singles_evidenceRefs
  explanation_valid := singles_explanation

/-- Both accept it. -/
theorem singles_accepted :
    validateDecisionForCase singlesCase (.importMissingTracks singlesSelection) = [] ∧
      validateDecision singlesCase
        (LidarrRepairDecisionV3.importMissingTracks singlesSelection).decoded = .ok () := by
  have hvalid : validateDecision singlesCase
      (LidarrRepairDecisionV3.importMissingTracks singlesSelection).decoded = .ok () := by
    have hsame : (LidarrRepairDecisionV3.importMissingTracks singlesSelection).decoded.caseID =
        singlesCase.caseID := rfl
    rw [validateDecision, if_neg (not_not.mpr hsame)]
    rfl
  exact ⟨(violations_nil_iff_valid (by rfl) (by decide +kernel) _).mpr hvalid, hvalid⟩

end NixConfig.MediaRepairPlanner
