/-
# Authorizing a join

A planner's decision to join parts is checked against the case it was made for
and against what the controller kept to itself: the parts must be offered by
the capability that the decision names, be files of the snapshot with a
successful probe, and be joinable in the decided order. What is authorized is
then bound to the fingerprints of the snapshot, with the size, the duration and
the tolerance that the result is held against.

The three figures are sums of `int64` values that the planner has no influence
on but by choosing parts. They are exact: the checks of the sums end in a
rejection before a sum could wrap. The tolerance has the tolerance of the muxer
on top of those of the parts.
-/

import NixConfig.MediaRepair.CaseBuilder.Assemble
import NixConfig.MediaRepair.Controller.Join

namespace NixConfig.MediaRepair.DecisionPolicy

open Data
open Contracts Controller
open CaseBuilder (Assembly Observation FileProbe)

/-! ## Decisions -/

structure JoinDecision where
  action : Text
  caseID : Text
  capabilityID : Text
  orderedFileIDS : List Text

structure RemuxBlurayDecision where
  action : Text
  caseID : Text
  capabilityID : Text

/-- A decision, with the branches that joins and remuxes read. -/
structure RepairDecisionV3 where
  kind : Text
  joinParts : Option JoinDecision
  remuxBluray : Option RemuxBlurayDecision := none

def actionJoinParts : Text := bytes "join_parts_v1"

/-! ## Validation -/

inductive JoinRejectionReason
  | wrongDecisionAction | caseMismatch | capabilityNotFound | capabilityWrongAction
  | tooFewSelectedFiles | duplicateSelectedFile | fileNotOffered | fileNotInSnapshot
  | fileNotActionable | probeUnavailable | technicalChecksRejected
  deriving DecidableEq, Repr

structure JoinRejection where
  reason : JoinRejectionReason
  partPosition : Option Nat
  fileID : FileID
  deriving DecidableEq, Repr

structure AuthorizedJoinPart where
  fileID : FileID
  fingerprint : FileFingerprint

structure AuthorizedJoin where
  caseID : Text
  capabilityID : Text
  orderedParts : List AuthorizedJoinPart
  sourceBytes : Int
  expectedDurationMS : Int
  durationToleranceMS : Int
  outputContainer : OutputContainer
  expectedStreamLayout : StreamLayout

structure JoinValidation where
  authorized : Option AuthorizedJoin
  rejections : List JoinRejection
  feasibility : Option JoinFeasibilityAssessment

def JoinValidation.accepted (validation : JoinValidation) : Bool :=
  validation.authorized.isSome && validation.rejections.isEmpty

def findCapability (capabilities : List Capability) (capabilityID : Text) : Option Capability :=
  capabilities.find? fun capability => capability.capabilityID = capabilityID

/-- Of two files with one identifier, the index keeps the later one. -/
def indexFiles (observation : Observation) (fileID : FileID) : Option InventoryFile :=
  observation.inventory.files.reverse.find? fun file => file.id = fileID

def indexProbes (observation : Observation) (fileID : FileID) : Option MediaProbeOutcome :=
  (observation.probes.reverse.find? fun probe => probe.fileID = fileID).map FileProbe.outcome

/-- A rejection of the decision as a whole. -/
def rejected (reason : JoinRejectionReason) : JoinRejection := ⟨reason, none, []⟩

section Validation

variable (libraries : Libraries) (sorting : StreamSort)

/-- One round of the loop over the selected files. -/
def selectPart (capability : Capability) (observation : Observation) (seen : List Text)
    (selectedID : Text) : Except JoinRejectionReason JoinPartEvidence :=
  if selectedID ∈ seen then .error .duplicateSelectedFile
  else if selectedID ∉ capability.candidateFileIDS then .error .fileNotOffered
  else
    match indexFiles observation selectedID with
    | none => .error .fileNotInSnapshot
    | some file =>
      let assessment := classifyMediaFile libraries file
      if !assessment.probeCandidate ∨ !supportsJoinPartsPath libraries file.pathComponents then
        .error .fileNotActionable
      else
        match indexProbes observation selectedID with
        | none => .error .probeUnavailable
        | some probe =>
          match probe.status, probe.evidence with
          | .succeeded, some evidence =>
            .ok ⟨selectedID, assessment.extension, file.fingerprint, some evidence⟩
          | _, _ => .error .probeUnavailable

/-- The loop over the selected files, from a position on: the rejections and the
parts that it collects. -/
def selectPartsFrom (capability : Capability) (observation : Observation) (position : Nat)
    (seen : List Text) : List Text → List JoinRejection × List JoinPartEvidence
  | [] => ([], [])
  | selectedID :: rest =>
    let (rejections, parts) :=
      selectPartsFrom capability observation (position + 1) (selectedID :: seen) rest
    match selectPart libraries capability observation seen selectedID with
    | .error reason => (⟨reason, some position, selectedID⟩ :: rejections, parts)
    | .ok part => (rejections, part :: parts)

/-- What is authorized of an eligible join; `none` where the source would follow
a nil pointer. -/
def authorize (caseID capabilityID : Text) (parts : List JoinPartEvidence)
    (feasibility : JoinFeasibilityAssessment) : Option AuthorizedJoin := do
  pure {
    caseID := caseID
    capabilityID := capabilityID
    orderedParts := parts.map fun part => ⟨part.fileID, part.fingerprint⟩
    sourceBytes := ← feasibility.sourceBytes
    expectedDurationMS := ← feasibility.duration.expectedMS
    durationToleranceMS := ← feasibility.duration.toleranceMS
    outputContainer := ← feasibility.outputContainer.container
    expectedStreamLayout := ← feasibility.streams.layout }

def caseRejections (assembly : Assembly) (join : JoinDecision) : List JoinRejection :=
  if join.caseID ≠ assembly.request.caseID ∨
      assembly.localSnapshot.caseID ≠ assembly.request.caseID then [rejected .caseMismatch]
  else []

def countRejections (join : JoinDecision) : List JoinRejection :=
  if join.orderedFileIDS.length < 2 then [rejected .tooFewSelectedFiles] else []

def validateJoin (assembly : Assembly) (decision : RepairDecisionV3) : JoinValidation :=
  match decision.joinParts with
  | none => ⟨none, [rejected .wrongDecisionAction], none⟩
  | some join =>
    if decision.kind ≠ actionJoinParts ∨ join.action ≠ actionJoinParts then
      ⟨none, [rejected .wrongDecisionAction], none⟩
    else
      let mismatch := caseRejections assembly join
      match findCapability assembly.request.capabilities join.capabilityID with
      | none => ⟨none, mismatch ++ [rejected .capabilityNotFound], none⟩
      | some capability =>
        if capability.action ≠ actionJoinParts then
          ⟨none, mismatch ++ [rejected .capabilityWrongAction], none⟩
        else
          let tooFew := countRejections join
          let (rejections, parts) := selectPartsFrom libraries capability
            assembly.localSnapshot.observation 0 [] join.orderedFileIDS
          if mismatch ++ tooFew ++ rejections ≠ [] then
            ⟨none, mismatch ++ tooFew ++ rejections, none⟩
          else
            let feasibility := assessJoinFeasibility sorting parts
            if !feasibility.eligible then
              ⟨none, [rejected .technicalChecksRejected], some feasibility⟩
            else
              ⟨authorize assembly.request.caseID capability.capabilityID parts feasibility, [],
                some feasibility⟩

end Validation

/-! ## What an authorization guarantees -/

/-- The parts of an authorized join are those of the decision, and its figures
are theirs. A part is a file of the snapshot with the evidence of its probe. -/
structure AuthorizedJoin.Sound (authorized : AuthorizedJoin) (assembly : Assembly)
    (join : JoinDecision) (parts : List (InventoryFile × ProbeEvidence)) : Prop where
  caseID : join.caseID = authorized.caseID ∧ assembly.request.caseID = authorized.caseID
  capabilityID : join.capabilityID = authorized.capabilityID
  ordered : authorized.orderedParts.map AuthorizedJoinPart.fileID = join.orderedFileIDS
  two : 2 ≤ join.orderedFileIDS.length
  distinct : join.orderedFileIDS.Nodup
  offered : ∃ capability, findCapability assembly.request.capabilities join.capabilityID =
    some capability ∧ capability.action = actionJoinParts ∧
    ∀ fileID ∈ join.orderedFileIDS, fileID ∈ capability.candidateFileIDS
  recorded : authorized.orderedParts = parts.map fun part => ⟨part.1.id, part.1.fingerprint⟩
  inSnapshot : ∀ part ∈ parts, part.1 ∈ assembly.localSnapshot.observation.inventory.files
  probed : ∀ part ∈ parts, ∃ probe ∈ assembly.localSnapshot.observation.probes,
    probe.fileID = part.1.id ∧ probe.outcome.status = .succeeded ∧
      probe.outcome.evidence = some part.2
  sourceBytes : authorized.sourceBytes = (parts.map fun part => part.1.fingerprint.sizeBytes).sum
  expectedDurationMS : ∃ durations : List Int,
    parts.map (fun part => (assessProbeDuration part.2).effectiveMS) = durations.map some ∧
      authorized.expectedDurationMS = durations.sum
  durationToleranceMS : authorized.durationToleranceMS = joinMuxToleranceMS +
    (parts.map fun part => exactToleranceMS (assessProbeDuration part.2)).sum

section Guarantees

variable {libraries : Libraries} {sorting : StreamSort}

/-- What the loop knows of a part it has collected. -/
structure Selected (capability : Capability) (observation : Observation) (seen : List Text)
    (part : JoinPartEvidence) : Prop where
  fresh : part.fileID ∉ seen
  offered : part.fileID ∈ capability.candidateFileIDS
  inSnapshot : ∃ file ∈ observation.inventory.files, file.id = part.fileID ∧
    file.fingerprint = part.fingerprint
  probed : ∃ probe ∈ observation.probes, probe.fileID = part.fileID ∧
    probe.outcome.status = .succeeded ∧ probe.outcome.evidence = part.probe ∧ part.probe.isSome

variable {capability : Capability} {observation : Observation} {seen : List Text}
  {parts : List JoinPartEvidence} {authorized : AuthorizedJoin} {capabilityID : Text}
  {feasibility : JoinFeasibilityAssessment}

theorem selectPart_eq_ok {selectedID : Text} {part : JoinPartEvidence}
    (hselect : selectPart libraries capability observation seen selectedID = .ok part) :
    part.fileID = selectedID ∧ Selected capability observation seen part := by
  unfold selectPart at hselect
  split at hselect
  · cases hselect
  rename_i hfresh
  split at hselect
  · cases hselect
  rename_i hoffered
  split at hselect
  · cases hselect
  rename_i file hfile
  dsimp only at hselect
  split_ifs at hselect
  split at hselect
  · cases hselect
  rename_i outcome houtcome
  split at hselect
  · rename_i evidence hstatus hevidence
    cases hselect
    have hid : file.id = selectedID := by simpa using List.find?_some hfile
    obtain ⟨probe, hprobe, rfl⟩ := Option.map_eq_some_iff.mp houtcome
    have hprobeID : probe.fileID = selectedID := by simpa using List.find?_some hprobe
    exact ⟨rfl, hfresh, not_not.mp hoffered,
      ⟨file, List.mem_reverse.mp (List.mem_of_find?_eq_some hfile), hid, rfl⟩,
      ⟨probe, List.mem_reverse.mp (List.mem_of_find?_eq_some hprobe), hprobeID, hstatus, hevidence,
        rfl⟩⟩
  · cases hselect

/-- A loop without rejections has collected a part for every selected file, in
order, and no file twice. -/
theorem selectPartsFrom_spec {position : Nat} {selected : List Text}
    (hnone : (selectPartsFrom libraries capability observation position seen selected).1 = []) :
    let parts := (selectPartsFrom libraries capability observation position seen selected).2
    parts.map JoinPartEvidence.fileID = selected ∧ selected.Nodup ∧
      ∀ part ∈ parts, Selected capability observation seen part := by
  induction selected generalizing position seen with
  | nil => exact ⟨rfl, List.nodup_nil, by simp [selectPartsFrom]⟩
  | cons selectedID rest ih =>
    unfold selectPartsFrom at hnone ⊢
    dsimp only at hnone ⊢
    split at hnone
    · cases hnone
    rename_i part hselect
    obtain ⟨hids, hdistinct, hparts⟩ := ih hnone
    obtain ⟨rfl, hpart⟩ := selectPart_eq_ok hselect
    refine ⟨by rw [List.map_cons, hids], List.nodup_cons.mpr ⟨fun hmem => ?_, hdistinct⟩, ?_⟩
    · -- A later part of the same file would have been seen.
      rw [← hids] at hmem
      obtain ⟨later, hlater, hsame⟩ := List.mem_map.mp hmem
      exact (hparts later hlater).fresh (hsame ▸ List.mem_cons_self)
    · refine List.forall_mem_cons.mpr ⟨hpart, fun later hlater => ?_⟩
      have hlaterPart := hparts later hlater
      exact { hlaterPart with
        fresh := fun hseen => hlaterPart.fresh (List.mem_cons_of_mem _ hseen) }

/-- A part that is a file of the snapshot with the evidence of its probe. -/
structure FromSnapshot (observation : Observation) (part : InventoryFile × ProbeEvidence) :
    Prop where
  inSnapshot : part.1 ∈ observation.inventory.files
  probed : ∃ probe ∈ observation.probes, probe.fileID = part.1.id ∧
    probe.outcome.status = .succeeded ∧ probe.outcome.evidence = some part.2

/-- What a collected part says is what the snapshot says of it. -/
theorem exists_fromSnapshot (hparts : ∀ part ∈ parts, Selected capability observation [] part) :
    ∃ files : List (InventoryFile × ProbeEvidence),
      (∀ file ∈ files, FromSnapshot observation file) ∧
        parts.map (fun part => (part.fileID, part.fingerprint, part.probeOrEmpty)) =
          files.map fun file => (file.1.id, file.1.fingerprint, file.2) := by
  induction parts with
  | nil => exact ⟨[], by simp, rfl⟩
  | cons part parts ih =>
    obtain ⟨hpart, hparts⟩ := List.forall_mem_cons.mp hparts
    obtain ⟨files, hfiles, hsame⟩ := ih hparts
    obtain ⟨file, hfile, hid, hfingerprint⟩ := hpart.inSnapshot
    obtain ⟨probe, hprobe, hprobeID, hstatus, hevidence, hsome⟩ := hpart.probed
    obtain ⟨evidence, heq⟩ := Option.isSome_iff_exists.mp hsome
    refine ⟨(file, evidence) :: files, List.forall_mem_cons.mpr ⟨?_, hfiles⟩, ?_⟩
    · exact ⟨hfile, probe, hprobe, hprobeID.trans hid.symm, hstatus, hevidence.trans heq⟩
    · rw [List.map_cons, List.map_cons, hsame, hid, hfingerprint, JoinPartEvidence.probeOrEmpty,
        heq]
      rfl

/-- What `validateJoin` has established when it authorizes a join. -/
theorem validateJoin_eq_some {assembly : Assembly} {decision : RepairDecisionV3}
    (hauthorized : (validateJoin libraries sorting assembly decision).authorized =
      some authorized) :
    ∃ join capability parts, decision.joinParts = some join ∧
      join.caseID = assembly.request.caseID ∧
      findCapability assembly.request.capabilities join.capabilityID = some capability ∧
      capability.action = actionJoinParts ∧
      selectPartsFrom libraries capability assembly.localSnapshot.observation 0 []
        join.orderedFileIDS = ([], parts) ∧
      (assessJoinFeasibility sorting parts).eligible ∧
      authorize assembly.request.caseID capability.capabilityID parts
        (assessJoinFeasibility sorting parts) = some authorized := by
  unfold validateJoin at hauthorized
  split at hauthorized
  · cases hauthorized
  rename_i join hjoin
  split_ifs at hauthorized
  dsimp only at hauthorized
  split at hauthorized
  · cases hauthorized
  rename_i capability hcapability
  split_ifs at hauthorized with haction hnone heligible
  rw [not_not, List.append_eq_nil_iff, List.append_eq_nil_iff] at hnone
  obtain ⟨⟨hcase, -⟩, hrejections⟩ := hnone
  have hcaseID : join.caseID = assembly.request.caseID := by
    unfold caseRejections at hcase
    split_ifs at hcase with hsame
    exact not_not.mp (not_or.mp hsame).1
  exact ⟨join, capability, _, hjoin, hcaseID, hcapability, not_not.mp haction,
    Prod.ext hrejections rfl, by simpa using heligible, hauthorized⟩

theorem authorize_eq_some {caseID : Text}
    (hauthorize : authorize caseID capabilityID parts feasibility = some authorized) :
    authorized.caseID = caseID ∧ authorized.capabilityID = capabilityID ∧
      authorized.orderedParts = parts.map (fun part => ⟨part.fileID, part.fingerprint⟩) ∧
      feasibility.sourceBytes = some authorized.sourceBytes ∧
      feasibility.duration.expectedMS = some authorized.expectedDurationMS ∧
      feasibility.duration.toleranceMS = some authorized.durationToleranceMS := by
  simp only [authorize, Option.bind_eq_bind, Option.bind_eq_some_iff, Option.pure_def] at hauthorize
  obtain ⟨_, hsource, _, hexpected, _, htolerance, _, -, _, -, hauthorized⟩ := hauthorize
  cases hauthorized
  exact ⟨rfl, rfl, rfl, hsource, hexpected, htolerance⟩

/-- An eligible join is always authorized: no nil pointer is followed. -/
theorem authorize_isSome {caseID : Text} (heligible : feasibility.eligible) :
    (authorize caseID capabilityID parts feasibility).isSome := by
  simp only [JoinFeasibilityAssessment.eligible, Bool.and_eq_true,
    Option.isSome_iff_exists] at heligible
  obtain ⟨⟨⟨⟨⟨⟨⟨⟨⟨⟨⟨⟨-, ⟨_, hsource⟩⟩, -⟩, ⟨_, hexpected⟩⟩, ⟨_, htolerance⟩⟩, -⟩, -⟩, ⟨_, hlayout⟩⟩, -⟩,
    -⟩, -⟩, ⟨_, hcontainer⟩⟩, -⟩ := heligible
  simp [authorize, hsource, hexpected, htolerance, hlayout, hcontainer]

/-- Every join that is authorized is made of the decided parts, bound to the
snapshot, with exact figures. -/
theorem authorized_join_sound {assembly : Assembly} {decision : RepairDecisionV3}
    {authorized : AuthorizedJoin}
    (hauthorized : (validateJoin libraries sorting assembly decision).authorized =
      some authorized) :
    ∃ join parts, decision.joinParts = some join ∧ authorized.Sound assembly join parts ∧
      ∀ part ∈ parts, part.2.IsInt64 →
        assessProbeDurationInt64 part.2 = assessProbeDuration part.2 := by
  obtain ⟨join, capability, parts, hjoin, hcase, hcapability, haction, hselect, heligible,
    hauthorize⟩ := validateJoin_eq_some hauthorized
  obtain ⟨hids, hdistinct, hselected⟩ := selectPartsFrom_spec (congrArg Prod.fst hselect)
  rw [hselect] at hids hselected
  obtain ⟨files, hfiles, hsame⟩ := exists_fromSnapshot hselected
  have hexact := exact_of_eligible heligible
  obtain ⟨durations, hdurations, hexpected⟩ := hexact.expectedMS
  have hnamed : capability.capabilityID = join.capabilityID := by
    simpa [findCapability] using List.find?_some hcapability
  obtain ⟨hauthorizedCase, hauthorizedID, hordered, hsource, hduration, htolerance⟩ :=
    authorize_eq_some hauthorize
  rw [hexact.sourceBytes, Option.some.injEq] at hsource
  rw [hexpected, Option.some.injEq] at hduration
  rw [hexact.toleranceMS, Option.some.injEq] at htolerance
  -- A list read off the parts is read off the files in the same way.
  have hread {α : Type} (read : FileID × FileFingerprint × ProbeEvidence → α) :
      parts.map (fun part => read (part.fileID, part.fingerprint, part.probeOrEmpty)) =
        files.map fun file => read (file.1.id, file.1.fingerprint, file.2) := by
    have hmapped := congrArg (List.map read) hsame
    rw [List.map_map, List.map_map] at hmapped
    exact hmapped
  refine ⟨join, files, hjoin, ?_, fun _ _ => assessProbeDurationInt64_eq⟩
  exact {
    caseID := ⟨hcase.trans hauthorizedCase.symm, hauthorizedCase.symm⟩
    capabilityID := hnamed.symm.trans hauthorizedID.symm
    ordered := by rw [hordered, List.map_map, ← hids]; rfl
    two := by simpa [← hids] using hexact.two
    distinct := hdistinct
    offered := by
      refine ⟨capability, hcapability, haction, fun fileID hfileID => ?_⟩
      rw [← hids] at hfileID
      obtain ⟨part, hpart, rfl⟩ := List.mem_map.mp hfileID
      exact (hselected part hpart).offered
    recorded := by
      rw [hordered]
      exact hread fun part => AuthorizedJoinPart.mk part.1 part.2.1
    inSnapshot := fun file hfile => (hfiles file hfile).inSnapshot
    probed := fun file hfile => (hfiles file hfile).probed
    sourceBytes := by
      rw [← hsource]
      exact congrArg List.sum (hread fun part => part.2.1.sizeBytes)
    expectedDurationMS := by
      refine ⟨durations, ?_, hduration.symm⟩
      rw [← hdurations]
      exact (hread fun part => (assessProbeDuration part.2.2).effectiveMS).symm
    durationToleranceMS := by
      rw [← htolerance]
      exact congrArg (fun tolerances => joinMuxToleranceMS + List.sum tolerances)
        (hread fun part => exactToleranceMS (assessProbeDuration part.2.2)) }

end Guarantees

/-! ## Two halves of a movie -/

/-- Half a movie in a Matroska file, with a video stream of no stated duration. -/
def halfProbe (durationMS : Int) : MediaProbeOutcome where
  status := .succeeded
  reason := .none
  evidence := some {
    format := ⟨[bytes "matroska"], some durationMS, none, none⟩
    streams := [{
      index := 0
      kind := some videoKind
      codecName := some (bytes "h264")
      profile := none
      codecTag := none
      width := some 1920
      height := some 1080
      pixelFormat := some (bytes "yuv420p")
      sampleFormat := none
      sampleRateHz := none
      channels := none
      channelLayout := none
      averageRate := some ⟨24, 1⟩
      timeBase := some ⟨1, 1000⟩
      startTimeMS := none
      durationMS := none
      bitRateBPS := none
      disposition := none
      tags := [] }] }

def halfFile (id name : String) (sizeBytes : Int) : InventoryFile where
  id := bytes id
  pathComponents := [bytes name]
  fingerprint := ⟨0, 1, sizeBytes, 0⟩
  downloadFile := some ⟨0, true, sizeBytes, sizeBytes, true⟩

/-- A completed download of the two halves, as the controller observed it. -/
def halvesObservation : Observation where
  observedAt := 1
  correlation := {
    radarr := ⟨1, none, bytes "Movie", bytes "completed", bytes "warning", bytes "importBlocked",
      [], [], bytes "nzo1", bytes "/downloads/Movie"⟩
    download := ⟨bytes "sabnzbd", bytes "usenet", bytes "nzo1", bytes "Movie", true,
      bytes "/downloads/Movie", [], none, 30, bytes "output_tree", []⟩
    downloadRoot := bytes "/downloads/Movie"
    rejectionReasons := [] }
  movie := none
  history := []
  manualImports := []
  inventory := {
    files := [halfFile "file:1" "cd1.mkv" 10, halfFile "file:2" "cd2.mkv" 20]
    paths := [⟨bytes "file:1", bytes "/downloads/Movie/cd1.mkv"⟩,
      ⟨bytes "file:2", bytes "/downloads/Movie/cd2.mkv"⟩] }
  probes := [⟨bytes "file:1", halfProbe 3000⟩, ⟨bytes "file:2", halfProbe 4000⟩]
  bluRayPlaylists := []
  dvdTitles := []

def halvesAssembly : Assembly where
  request := {
    schemaVersion := CaseBuilder.schemaVersion
    caseID := bytes "sha256:1"
    observedAt := 1
    radarr := ⟨⟨1, bytes "download:1", bytes "Movie", [], bytes "completed", bytes "warning",
      bytes "importBlocked", [], 0⟩, none, [], []⟩
    download := ⟨bytes "usenet", bytes "sabnzbd", bytes "output_tree", bytes "download:1",
      bytes "Movie", 30, 2, true, none, []⟩
    files := []
    capabilities := [{
      action := actionJoinParts
      capabilityID := bytes "capability:1"
      candidateFileIDS := [bytes "file:1", bytes "file:2"] }] }
  encodedRequest := []
  localSnapshot := ⟨bytes "sha256:1", halvesObservation, []⟩

def halvesDecision : RepairDecisionV3 where
  kind := actionJoinParts
  joinParts := some ⟨actionJoinParts, bytes "sha256:1", bytes "capability:1",
    [bytes "file:1", bytes "file:2"]⟩

theorem halves_authorized : ∃ authorized,
    (validateJoin asciiLibraries insertionSorting halvesAssembly halvesDecision).authorized =
      some authorized ∧ authorized.sourceBytes = 30 ∧ authorized.expectedDurationMS = 7000 ∧
      authorized.durationToleranceMS = 3000 := by
  have hfigures : ((validateJoin asciiLibraries insertionSorting halvesAssembly
      halvesDecision).authorized.map fun authorized =>
        (authorized.sourceBytes, authorized.expectedDurationMS, authorized.durationToleranceMS)) =
      some (30, 7000, 3000) := by decide +kernel
  obtain ⟨authorized, hauthorized, hfigures⟩ := Option.map_eq_some_iff.mp hfigures
  simp only [Prod.mk.injEq] at hfigures
  exact ⟨authorized, hauthorized, hfigures⟩

theorem halves_authorized_sound : ∃ authorized join parts,
    (validateJoin asciiLibraries insertionSorting halvesAssembly halvesDecision).authorized =
      some authorized ∧ halvesDecision.joinParts = some join ∧
      authorized.Sound halvesAssembly join parts := by
  obtain ⟨authorized, hauthorized, -⟩ := halves_authorized
  obtain ⟨join, parts, hjoin, hsound, -⟩ := authorized_join_sound hauthorized
  exact ⟨authorized, join, parts, hauthorized, hjoin, hsound⟩

/-- The tolerance is not the sum of those of the two halves. -/
theorem halves_tolerance_exceeds_sum : ∃ authorized,
    (validateJoin asciiLibraries insertionSorting halvesAssembly halvesDecision).authorized =
      some authorized ∧ authorized.durationToleranceMS ≠
        ((halvesObservation.probes.filterMap fun probe => probe.outcome.evidence).map fun evidence =>
          exactToleranceMS (assessProbeDuration evidence)).sum := by
  obtain ⟨authorized, hauthorized, -, -, htolerance⟩ := halves_authorized
  refine ⟨authorized, hauthorized, ?_⟩
  rw [htolerance]
  decide +kernel

end NixConfig.MediaRepair.DecisionPolicy
