/-
# Radarr decisions

The decisions that the planner returns for a Radarr case: what they say, what
their schema asks of them, the JSON document they are encoded to, and how it is
read back.
-/

import NixConfig.MediaRepair.Contracts

namespace NixConfig.MediaRepairPlanner.Radarr

open Data
open MediaRepair.Contracts.CaseSchema (isLowerLetter isOpaqueChar isPrintable isSha256Id)

abbrev Str := List Char

/-! ## Decisions -/

inductive Reason
  | noRepairNeeded
  | notAMultipartRelease
  | ambiguousPartOrder
  | ambiguousFileSelection
  | contentNotSingleMovie
  | rawDiscUnsupported
  | missingImportMetadata
  | insufficientEvidence
  | unsupportedRepair
  | unsafeToRepair
  deriving DecidableEq

def Reason.text : Reason → String
  | .noRepairNeeded => "no_repair_needed"
  | .notAMultipartRelease => "not_a_multipart_release"
  | .ambiguousPartOrder => "ambiguous_part_order"
  | .ambiguousFileSelection => "ambiguous_file_selection"
  | .contentNotSingleMovie => "content_not_single_movie"
  | .rawDiscUnsupported => "raw_disc_unsupported"
  | .missingImportMetadata => "missing_import_metadata"
  | .insufficientEvidence => "insufficient_evidence"
  | .unsupportedRepair => "unsupported_repair"
  | .unsafeToRepair => "unsafe_to_repair"

def reasons : List Reason :=
  [.noRepairNeeded, .notAMultipartRelease, .ambiguousPartOrder, .ambiguousFileSelection,
    .contentNotSingleMovie, .rawDiscUnsupported, .missingImportMetadata, .insufficientEvidence,
    .unsupportedRepair, .unsafeToRepair]

inductive MissingEvidence
  | movieIdentity
  | downloadProvenance
  | fileIdentity
  | partMembership
  | partOrder
  | duration
  | streamLayout
  | containerCompatibility
  | fileSelection
  | movieRuntime
  | importMetadata
  | discPlaylist
  | mediaProbe
  deriving DecidableEq

def MissingEvidence.text : MissingEvidence → String
  | .movieIdentity => "movie_identity"
  | .downloadProvenance => "download_provenance"
  | .fileIdentity => "file_identity"
  | .partMembership => "part_membership"
  | .partOrder => "part_order"
  | .duration => "duration"
  | .streamLayout => "stream_layout"
  | .containerCompatibility => "container_compatibility"
  | .fileSelection => "file_selection"
  | .movieRuntime => "movie_runtime"
  | .importMetadata => "import_metadata"
  | .discPlaylist => "disc_playlist"
  | .mediaProbe => "media_probe"

inductive Action
  | noRepair (reason : Reason) (missingEvidence : List MissingEvidence)
  | joinParts (capabilityID : Str) (orderedFileIDs : List Str)
  | manualImportFile (capabilityID fileID : Str)
  | remuxBluray (capabilityID : Str)
  | remuxDVD (capabilityID : Str)
  deriving DecidableEq

structure RepairDecisionV3 where
  caseID : Str
  action : Action
  evidenceRefs : List Str
  explanation : Str
  deriving DecidableEq

/-- The identifiers of files and capabilities that an action names. -/
def Action.ids : Action → List Str
  | .noRepair _ _ => []
  | .joinParts capabilityID orderedFileIDs => capabilityID :: orderedFileIDs
  | .manualImportFile capabilityID fileID => [capabilityID, fileID]
  | .remuxBluray capabilityID | .remuxDVD capabilityID => [capabilityID]

namespace RepairDecisionV3

def ids (decision : RepairDecisionV3) : List Str :=
  decision.caseID :: decision.action.ids ++ decision.evidenceRefs

end RepairDecisionV3

/-! ## Encoding -/

def literal (text : String) : Json Str := .string text.toList

def strings (values : List Str) : Json Str := .array (values.map .string)

/-- The document of a decision, its members sorted. -/
def RepairDecisionV3.json (decision : RepairDecisionV3) : Json Str :=
  match decision.action with
  | .noRepair reason missingEvidence => .object [
      ("action", literal "no_repair"),
      ("case_id", .string decision.caseID),
      ("evidence_refs", strings decision.evidenceRefs),
      ("explanation", .string decision.explanation),
      ("missing_evidence", strings (missingEvidence.map fun item => item.text.toList)),
      ("reason", literal reason.text),
      ("schema_version", literal "radarr-repair/v3")]
  | .joinParts capabilityID orderedFileIDs => .object [
      ("action", literal "join_parts_v1"),
      ("capability_id", .string capabilityID),
      ("case_id", .string decision.caseID),
      ("evidence_refs", strings decision.evidenceRefs),
      ("explanation", .string decision.explanation),
      ("ordered_file_ids", strings orderedFileIDs),
      ("schema_version", literal "radarr-repair/v3")]
  | .manualImportFile capabilityID fileID => .object [
      ("action", literal "manual_import_file_v1"),
      ("capability_id", .string capabilityID),
      ("case_id", .string decision.caseID),
      ("evidence_refs", strings decision.evidenceRefs),
      ("explanation", .string decision.explanation),
      ("file_id", .string fileID),
      ("schema_version", literal "radarr-repair/v3")]
  | .remuxBluray capabilityID => .object [
      ("action", literal "remux_bluray_v1"),
      ("capability_id", .string capabilityID),
      ("case_id", .string decision.caseID),
      ("evidence_refs", strings decision.evidenceRefs),
      ("explanation", .string decision.explanation),
      ("schema_version", literal "radarr-repair/v3")]
  | .remuxDVD capabilityID => .object [
      ("action", literal "remux_dvd_v1"),
      ("capability_id", .string capabilityID),
      ("case_id", .string decision.caseID),
      ("evidence_refs", strings decision.evidenceRefs),
      ("explanation", .string decision.explanation),
      ("schema_version", literal "radarr-repair/v3")]

/-! ## What the schema asks -/

/-- `re.search` of a pattern `^…$`: the end may also be before a last newline. -/
def search (pattern : Str → Bool) (cs : Str) : Bool :=
  pattern cs || (cs.getLast? == some '\n' && pattern cs.dropLast)

def isOpaqueId (cs : Str) : Bool :=
  1 ≤ cs.length && cs.length ≤ 128 &&
    search (fun cs => cs.head?.any isLowerLetter && cs.tail.all isOpaqueChar) cs

def isExplanation (cs : Str) : Bool :=
  1 ≤ cs.length && cs.length ≤ 1200 && search (fun cs => !cs.isEmpty && cs.all isPrintable) cs

def Action.valid : Action → Bool
  | .noRepair _ missingEvidence => missingEvidence.length ≤ 16 && decide missingEvidence.Nodup
  | .joinParts capabilityID orderedFileIDs =>
    isOpaqueId capabilityID && orderedFileIDs.all isOpaqueId && 2 ≤ orderedFileIDs.length &&
      orderedFileIDs.length ≤ 128 && decide orderedFileIDs.Nodup
  | .manualImportFile capabilityID fileID => isOpaqueId capabilityID && isOpaqueId fileID
  | .remuxBluray capabilityID | .remuxDVD capabilityID => isOpaqueId capabilityID

/-- `repair-decision.schema.json`, of the document of a decision. -/
def RepairDecisionV3.valid (decision : RepairDecisionV3) : Bool :=
  search isSha256Id decision.caseID && decision.action.valid &&
    decision.evidenceRefs.all isOpaqueId && decision.evidenceRefs.length ≤ 32 &&
    decide decision.evidenceRefs.Nodup && isExplanation decision.explanation

/-- The string a document is, if it is one. -/
def string? : Json Str → Option Str
  | .string value => some value
  | _ => none

/-- The member of an object under a name. -/
def member? (name : String) : Json Str → Option (Json Str)
  | .object members => members.lookup name
  | _ => none

def readString (name : String) (value : Json Str) : Option Str :=
  (member? name value).bind string?

end NixConfig.MediaRepairPlanner.Radarr
