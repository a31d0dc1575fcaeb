/-
# Validating a Lidarr decision

A decision selects a capability of its case and maps artifacts to tracks, one to
one, inside that capability.
-/

import NixConfig.MediaRepair.LidarrContracts

namespace NixConfig.MediaRepair.LidarrRepair

open Data Semantics LidarrContracts

def decisionVersion (decision : Decision) : Text :=
  match decision.kind with
  | .noRepair => (decision.noRepair.map NoRepairDecision.schemaVersion).getD []
  | .importMissingTracks =>
    (decision.importMissingTracks.map ImportMissingTracksDecision.schemaVersion).getD []

inductive DecisionError
  /-- "Lidarr decision case ID does not match" -/
  | caseID
  /-- "unsupported Lidarr repair schema version" -/
  | unsupportedVersion (version : Text)
  /-- "Lidarr decision schema version does not match its case" -/
  | version
  /-- "Lidarr decision action is inconsistent" -/
  | inconsistentAction
  /-- "Lidarr decision references unknown evidence" -/
  | unknownEvidence
  /-- "Lidarr decision selects an unknown capability" -/
  | unknownCapability
  /-- "Lidarr decision selects an album or release outside its capability" -/
  | outsideAlbum
  /-- "Lidarr decision mapping is outside its capability" -/
  | outsideCapability
  /-- "Lidarr decision maps an artifact more than once" -/
  | repeatedArtifact
  /-- "Lidarr decision maps a track more than once" -/
  | repeatedTrack
  /-- "Lidarr decision does not map any missing track" -/
  | noTrack
  deriving DecidableEq, Repr

def validateEvidenceReferences (repairCase : Case) (references : List Text) :
    Except DecisionError Unit :=
  let allowed := repairCase.artifacts.map Artifact.artifactID ++
    repairCase.capabilities.map Capability.capabilityID
  if references.all (· ∈ allowed) then .ok () else .error .unknownEvidence

/-- The loop over the mappings of a decision, with the artifacts and the tracks
seen before. -/
def validateMappings (capability : Capability) (artifacts : List Text) (tracks : List Int) :
    List TrackMapping → Except DecisionError Unit
  | [] => if tracks = [] then .error .noTrack else .ok ()
  | mapping :: rest =>
    if mapping.artifactID ∉ capability.artifactIDs ∨ mapping.trackID ∉ capability.trackIDs then
      .error .outsideCapability
    else if mapping.artifactID ∈ artifacts then .error .repeatedArtifact
    else if mapping.trackID ∈ tracks then .error .repeatedTrack
    else
      validateMappings capability (mapping.artifactID :: artifacts) (mapping.trackID :: tracks) rest

/-- The part of `validateDecisionSelection` about an import. -/
def validateImport (repairCase : Case) (selected : ImportMissingTracksDecision) :
    Except DecisionError Unit := do
  let _ ← validateEvidenceReferences repairCase selected.evidenceRefs
  match repairCase.capabilities.find? (·.capabilityID = selected.capabilityID) with
  | none => .error .unknownCapability
  | some capability =>
    if capability.action ≠ actionImportMissingTracks then .error .unknownCapability
    else if selected.albumID ≠ capability.albumID ∨ selected.releaseID ≠ capability.releaseID then
      .error .outsideAlbum
    else validateMappings capability [] [] selected.mappings

def validateDecisionSelection (repairCase : Case) (decision : Decision) :
    Except DecisionError Unit :=
  if repairCase.schemaVersion ≠ schemaVersion then
    .error (.unsupportedVersion repairCase.schemaVersion)
  else if decisionVersion decision ≠ repairCase.schemaVersion then .error .version
  else
    match decision.kind, decision.noRepair, decision.importMissingTracks with
    | .noRepair, some noRepair, _ => validateEvidenceReferences repairCase noRepair.evidenceRefs
    | .importMissingTracks, _, some selected => validateImport repairCase selected
    | _, _, _ => .error .inconsistentAction

def validateDecision (repairCase : Case) (decision : Decision) : Except DecisionError Unit :=
  if decision.caseID ≠ repairCase.caseID then .error .caseID
  else validateDecisionSelection repairCase decision

end NixConfig.MediaRepair.LidarrRepair
