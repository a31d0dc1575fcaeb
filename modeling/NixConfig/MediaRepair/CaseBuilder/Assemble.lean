/-
# Assembling a repair case

The case builder turns one observation of a stuck download into the case the
planner sees and the snapshot the controller keeps. Everything the planner
sees is mapped here, field by field; files, evidence and capabilities are named
by digests, and the finished case is searched for values that must stay local
before it is given its identity and encoded.

A Go map that is only filled and looked up is an association list, and its
iteration order, where the source iterates, is the order of filling. Errors
keep the format string and the formatted values of the source.
-/

import Mathlib.Data.List.Sort
import NixConfig.MediaRepair.Controller

namespace NixConfig.MediaRepair.CaseBuilder

open Data
open Contracts
open Controller hiding Download
open Jobs (Time)

/-! ## Inputs and results -/

structure FileProbe where
  fileID : FileID
  outcome : MediaProbeOutcome

/-- A track of a disc title, as either disc tool reports it. -/
structure Track where
  kind : Text
  codec : Text
  language : Text

/-- `mkvmerge.Candidate`, with its playlist details. -/
structure BluRayCandidate where
  playlistFileID : FileID
  clipFileIDs : List FileID
  durationMS : Int
  chapters : Int
  clipPaths : List Text
  tracks : List Track

/-- `dvdvideo.Candidate`, with its title details. -/
structure DVDCandidate where
  navigationFileID : FileID
  sourceFileIDs : List FileID
  number : Int
  durationMS : Int
  chapters : Int
  angles : Int
  titleSet : Int
  titleInSet : Int
  tracks : List Track

structure Observation where
  observedAt : Time
  correlation : DownloadCorrelation
  movie : Option RadarrMovie
  history : List RadarrHistoryEvent
  manualImports : List RadarrManualImport
  inventory : FileInventory
  probes : List FileProbe
  bluRayPlaylists : List BluRayCandidate
  dvdTitles : List DVDCandidate

/-- What the controller keeps to itself. -/
structure LocalSnapshot where
  caseID : Text
  observation : Observation
  manualImportBindings : List (Text × RadarrManualImportBinding)

structure Assembly where
  request : RepairCaseV3
  encodedRequest : Text
  localSnapshot : LocalSnapshot

/-- An error of the case builder: a format with its values, possibly around
another error. -/
inductive AssembleError
  | failed (format : String) (values : List Text)
  | wrapped (format : String) (values : List Text) (cause : AssembleError)
  | encoding (format : String) (cause : EncodeError)
  | incompleteProbeMetadata
  | invalidEvidence (cause : AssembleError)

/-- `errors.Is(err, errIncompleteProbeMetadata)` -/
def AssembleError.isIncompleteProbeMetadata : AssembleError → Bool
  | .incompleteProbeMetadata => true
  | .wrapped _ _ cause | .invalidEvidence cause => cause.isIncompleteProbeMetadata
  | .failed _ _ | .encoding _ _ => false

abbrev Result (α : Type) := Except AssembleError α

/-- `fmt.Errorf` -/
def fail {α : Type} (format : String) (values : List Text := []) : Result α :=
  .error (.failed format values)

/-- Add context to an error. -/
def context {α : Type} (format : String) (values : List Text) : Result α → Result α :=
  Except.mapError (.wrapped format values)

/-! ## Opaque identifiers -/

def opaqueIDDomain : Text := bytes "radarr-repair-opaque-id-v1" ++ [0]

section Assemble

variable (libraries : Libraries)

def opaqueID (kind : Text) (values : List Text) : Text :=
  let digest := libraries.sum256 (opaqueIDDomain ++ kind ++
    values.flatMap fun value => 0 :: numeral value.length ++ 0 :: value)
  kind ++ bytes ":" ++ hexEncode digest.val

/-! ## Indexing the observation -/

def findFile (files : List InventoryFile) (id : FileID) : Option InventoryFile :=
  files.find? fun file => file.id == id

def indexFiles (inventory : FileInventory) : Result (List InventoryFile) :=
  inventory.files.foldlM (fun indexed file =>
    if file.id = [] then fail "inventory contains a file without an ID"
    else if (findFile indexed file.id).isSome then
      fail "inventory contains duplicate file ID %q" [file.id]
    else .ok (indexed ++ [file])) []

def indexPaths (inventory : FileInventory) (files : List InventoryFile) :
    Result (List (FileID × Text)) :=
  inventory.paths.foldlM (fun paths mapping =>
    if (findFile files mapping.fileID).isNone then
      fail "local path refers to unknown file ID %q" [mapping.fileID]
    else if (paths.lookup mapping.fileID).isSome then
      fail "inventory contains duplicate path for file ID %q" [mapping.fileID]
    else if mapping.absolutePath = [] then
      fail "file %q has an empty local path" [mapping.fileID]
    else .ok (paths ++ [(mapping.fileID, mapping.absolutePath)])) []

def indexInventory (inventory : FileInventory) :
    Result (List InventoryFile × List (FileID × Text)) := do
  let files ← indexFiles inventory
  let paths ← indexPaths inventory files
  pure (files, paths)

def indexProbes (probes : List FileProbe) : Result (List (FileID × MediaProbeOutcome)) :=
  probes.foldlM (fun indexed probe =>
    if probe.fileID = [] then fail "probe has no file ID"
    else if (indexed.lookup probe.fileID).isSome then
      fail "duplicate probe for file ID %q" [probe.fileID]
    else .ok (indexed ++ [(probe.fileID, probe.outcome)])) []

/-! ## Probes -/

def mapRational (value : Rational) : FrameRate := ⟨value.numerator, value.denominator⟩

def streamLanguage (tags : List ProbeTag) : Option Text :=
  (tags.find? fun tag => tag.name == bytes "language").map ProbeTag.value

/-- A stream needs a kind, a codec, a time base and a whole disposition. -/
def mapStream (stream : ProbeStream) : Result StreamElement :=
  let missing (format : String) : Result StreamElement :=
    .error (.wrapped format [] .incompleteProbeMetadata)
  match stream.kind, stream.codecName, stream.timeBase, stream.disposition with
  | none, _, _, _ => missing "%w: kind is missing"
  | _, none, _, _ => missing "%w: codec name is missing"
  | _, _, none, _ => missing "%w: time base is missing"
  | some kind, some codecName, some timeBase,
      some ⟨some default, some forced, some hearingImpaired, some visualImpaired⟩ =>
    .ok {
      index := stream.index
      kind := kind
      codecName := codecName
      codecTag := stream.codecTag
      profile := stream.profile
      timeBase := mapRational timeBase
      startTimeMS := stream.startTimeMS
      durationMS := stream.durationMS
      bitRateBps := stream.bitRateBPS
      language := streamLanguage stream.tags
      disposition := ⟨default, forced, hearingImpaired, visualImpaired⟩
      width := stream.width
      height := stream.height
      pixelFormat := stream.pixelFormat
      frameRate := stream.averageRate.map mapRational
      sampleRateHz := stream.sampleRateHz
      channels := stream.channels
      channelLayout := stream.channelLayout }
  | _, _, _, _ => missing "%w: disposition is incomplete"

/-- Map sorted streams, refusing one with the index of the stream before it. -/
def mapStreams : Option Int → List ProbeStream → Result (List StreamElement)
  | _, [] => .ok []
  | previous, stream :: rest =>
    if previous = some stream.index then
      fail "probe contains duplicate stream index %d" [numeral stream.index]
    else do
      let mapped ← context "stream %d: %w" [numeral stream.index] (mapStream stream)
      let others ← mapStreams (some stream.index) rest
      pure (mapped :: others)

def probeOK : Text := bytes "ok"

def mapSuccessfulProbe (evidence : ProbeEvidence) (expectedSize : Int) : Result Probe :=
  match evidence.format.sizeBytes with
  | none => .error (.wrapped "%w: format size is missing" [] .incompleteProbeMetadata)
  | some size =>
    if size ≠ expectedSize then
      fail "probe format size %d does not match inventory size %d"
        [numeral size, numeral expectedSize]
    else do
      let duration := assessProbeDuration evidence
      let streams ← mapStreams none
        (evidence.streams.insertionSort fun left right => left.index ≤ right.index)
      pure {
        status := probeOK
        reason := none
        summary := none
        format := some {
          names := evidence.format.names
          effectiveDurationMS := duration.effectiveMS
          effectiveDurationSource := duration.source.text
          formatDurationMS := duration.formatMS
          longestStreamDurationMS := duration.longestStreamMS
          sizeBytes := size
          bitRateBps := evidence.format.bitRateBPS }
        streams := streams }

def failedProbeReason : MediaProbeReason → Bool
  | .notRegularFile | .unsupportedFormat | .timeout | .error | .invalidOutput
  | .incompleteMetadata => true
  | _ => false

def uncollectedProbeReason : MediaProbeReason → Bool
  | .notCandidate | .collectionLimit => true
  | _ => false

def probeSummary : MediaProbeReason → String
  | .notRegularFile => "The worker did not observe a regular file."
  | .unsupportedFormat => "ffprobe did not recognize a supported media format."
  | .timeout => "Media probing reached its execution deadline."
  | .error => "ffprobe failed while inspecting the file."
  | .invalidOutput => "ffprobe returned invalid structured metadata."
  | .incompleteMetadata => "ffprobe omitted metadata required by the planner."
  | .notCandidate => "The file was retained as evidence but was not eligible for probing."
  | .collectionLimit => "The collection deadline was reached before the file could be probed."
  | _ => "Media probe evidence is unavailable."

def unavailableProbe (status : MediaProbeStatus) (reason : MediaProbeReason) : Probe where
  status := status.text
  reason := some reason.text
  summary := some (bytes (probeSummary reason))
  format := none
  streams := []

def mapProbe (outcome : MediaProbeOutcome) (expectedSize : Int) : Result Probe :=
  match outcome.status with
  | .succeeded =>
    match outcome.evidence, outcome.reason with
    | some evidence, .none =>
      match mapSuccessfulProbe evidence expectedSize with
      | .ok probe => .ok probe
      | .error err =>
        -- Missing metadata is itself evidence; any other problem is an error.
        if err.isIncompleteProbeMetadata then .ok (unavailableProbe .failed .incompleteMetadata)
        else .error err
    | _, _ => fail "successful probe outcome is incomplete"
  | .failed =>
    if outcome.evidence.isSome ∨ !failedProbeReason outcome.reason then
      fail "failed probe outcome is invalid"
    else .ok (unavailableProbe outcome.status outcome.reason)
  | .notCollected =>
    if outcome.evidence.isSome ∨ !uncollectedProbeReason outcome.reason then
      fail "uncollected probe outcome is invalid"
    else .ok (unavailableProbe outcome.status outcome.reason)
  | .other text => fail "probe outcome status %q is invalid" [text]

/-! ## Files -/

def mapMembership (downloadFile : DownloadFileReference) : DownloadMembershipClass where
  sourceIndex := if downloadFile.hasIndex then some downloadFile.index else none
  selected := downloadFile.selected
  sourceSizeBytes := downloadFile.lengthBytes
  availableBytes := downloadFile.bytesCompleted

def mapFile (assessment : MediaFileAssessment) (outcome : MediaProbeOutcome) :
    Result FileElement := do
  let file := assessment.file
  let probe ← mapProbe outcome file.fingerprint.sizeBytes
  let ineligible := outcome.status = .notCollected ∧ outcome.reason = .notCandidate
  if assessment.probeCandidate ∧ ineligible then
    fail "probe candidate was marked as ineligible for probing"
  else if !assessment.probeCandidate ∧ ¬ ineligible then
    fail "evidence-only file has an invalid probe outcome"
  else
    pure {
      fileID := file.id
      pathComponents := file.pathComponents
      sizeBytes := file.fingerprint.sizeBytes
      downloadMembership := file.downloadFile.map mapMembership
      fingerprint := file.fingerprint.stableFingerprint libraries
      extension := assessment.extension.map MediaExtension.text
      disposition := assessment.disposition.text
      dispositionReason := assessment.exclusionReason.map MediaFileExclusionReason.text
      probe := probe }

/-- The loop over the assessed files: the mapped files, and the identifiers of
those that could be joined. -/
def mapFiles (paths : List (FileID × Text)) (probes : List (FileID × MediaProbeOutcome))
    (assessments : List MediaFileAssessment) : Result (List Text × List FileElement) :=
  assessments.foldlM (fun (candidates, files) assessment =>
    let file := assessment.file
    if (paths.lookup file.id).isNone then fail "inventory file %q has no local path" [file.id]
    else
      match probes.lookup file.id with
      | none => fail "inventory file %q has no probe outcome" [file.id]
      | some outcome => do
        let mapped ← context "map file %q: %w" [file.id] (mapFile libraries assessment outcome)
        let joinable := assessment.probeCandidate && mapped.probe.status == probeOK &&
          supportsJoinPartsPath libraries file.pathComponents
        pure (if joinable then candidates ++ [mapped.fileID] else candidates, files ++ [mapped]))
    ([], [])

/-! ## Radarr's evidence -/

structure ManualImportMatch where
  file : InventoryFile
  absolutePath : Text
  manualImport : RadarrManualImport

/-- The file of every local path, when no two files share one. -/
def indexPathIDs (paths : List (FileID × Text)) : Result (List (Text × FileID)) :=
  paths.foldlM (fun pathIDs (fileID, path) =>
    if (pathIDs.lookup path).isSome then
      fail "multiple inventory files use local path %q" [path]
    else .ok (pathIDs ++ [(path, fileID)])) []

/-- Pair every listed import with its file. Published outputs are not source
evidence, even when Radarr lists them. -/
def matchManualImports (imports : List RadarrManualImport) (files : List InventoryFile)
    (paths : List (FileID × Text)) : Result (List ManualImportMatch) := do
  let pathIDs ← indexPathIDs paths
  imports.foldlM (fun found item =>
    if isPublishedName (pathBase item.path) then .ok found
    else
      match (pathIDs.lookup item.path).bind (findFile files) with
      | none => fail "manual import path does not match the inventory"
      | some file =>
        if found.any fun earlier => earlier.file.id == file.id then
          fail "multiple manual imports refer to file %q" [file.id]
        else if item.sizeBytes ≠ file.fingerprint.sizeBytes then
          fail "manual import size does not match file %q" [file.id]
        else .ok (found ++ [⟨file, item.path, item⟩])) []

def qualityName (quality : Option RadarrQualityModel) : Option Text :=
  quality.map fun model => model.quality.name

def languageNames (languages : List RadarrLanguage) : List Text := languages.map RadarrLanguage.name

def optionalText (value : Text) : Option Text := if value = [] then none else some value

def mapRejectionType (value : Text) : Text :=
  let lowered := toLower libraries.unicode value
  if lowered = bytes "permanent" then bytes "permanent"
  else if lowered = bytes "temporary" then bytes "temporary"
  else bytes "unknown"

def mapManualImport (found : ManualImportMatch) : ManualImportElement where
  fileID := found.file.id
  quality := qualityName found.manualImport.quality
  languages := languageNames found.manualImport.languages
  releaseGroup := optionalText found.manualImport.releaseGroup
  rejections := found.manualImport.rejections.zipIdx.map fun (rejection, index) => {
    evidenceID := opaqueID libraries (bytes "evidence")
      [bytes "manual_import", found.file.id, numeral index]
    type := mapRejectionType libraries rejection.type
    reason := rejection.reason }

def mapMovie (movie : RadarrMovie) : MovieClass where
  radarrID := movie.id
  tmdbID := movie.tmdbID
  imdbID := movie.imdbID
  title := movie.title
  originalTitle := movie.originalTitle
  alternateTitles := movie.alternateTitles
  year := movie.year
  runtimeMinutes := movie.runtimeMinutes

def mapHistoryEvent (failure : RadarrQueueRecord) (event : RadarrHistoryEvent) :
    Result HistoryElement :=
  if failure.movieID ≠ some event.movieID then
    fail "history event %d refers to another movie" [numeral event.id]
  else if !equalFold libraries.unicode event.downloadID failure.downloadID then
    fail "history event %d refers to another download" [numeral event.id]
  else .ok {
    evidenceID := opaqueID libraries (bytes "evidence") [bytes "history", numeral event.id]
    eventType := event.eventType
    occurredAt := event.occurredAt
    sourceTitle := event.sourceTitle
    quality := qualityName event.quality
    languages := languageNames event.languages }

def maximumStatusMessages : Nat := 32

def maximumMessageDetails : Nat := 16

def mapStatusMessages (failure : RadarrQueueRecord) : List StatusMessageElement :=
  (failure.statusMessages.take maximumStatusMessages).zipIdx.map fun (status, index) => {
    evidenceID := opaqueID libraries (bytes "evidence")
      [bytes "queue", numeral failure.id, numeral index]
    title := status.title
    messages := status.messages.take maximumMessageDetails
    messageCount := status.messages.length }

def mapRadarr (observation : Observation) (downloadRef : Text)
    (manualImports : List ManualImportMatch) : Result Radarr := do
  let failure := observation.correlation.radarr
  let history ← observation.history.mapM (mapHistoryEvent libraries failure)
  pure {
    failure := {
      queueID := failure.id
      downloadRef := downloadRef
      title := failure.title
      errorMessage := failure.errorMessage
      status := failure.status
      trackedDownloadStatus := failure.trackedDownloadStatus
      trackedDownloadState := failure.trackedDownloadState
      statusMessages := mapStatusMessages libraries failure
      statusMessageCount := failure.statusMessages.length }
    movie := observation.movie.map mapMovie
    history := history
    manualImports := manualImports.map (mapManualImport libraries) }

def mapDownload (download : Controller.Download) (downloadRef : Text) (fileCount : Nat) :
    Contracts.Download where
  sourceType := download.sourceType
  client := download.client
  contentOwnership := download.contentOwnership
  downloadRef := downloadRef
  name := download.name
  totalSizeBytes := download.totalSizeBytes
  fileCount := fileCount
  isComplete := download.complete
  completedAt := download.completedAt
  labels := download.labels

/-! ## Capabilities -/

def joinCapabilities (candidateFileIDs : List Text) : List Capability :=
  if candidateFileIDs.length < 2 then []
  else [{
    action := bytes "join_parts_v1"
    candidateFileIDS := candidateFileIDs
    capabilityID := opaqueID libraries (bytes "capability")
      (bytes "join_parts_v1" :: candidateFileIDs) }]

/-- The revision of a quality, as an identity lists it. -/
def revisionIdentity : Option RadarrQualityRevision → List Text
  | none => [bytes "revision:absent"]
  | some revision => [bytes "revision:present", numeral revision.version, numeral revision.real,
      bytes (if revision.isRepack then "true" else "false")]

/-- The values that identify a manual import. -/
def manualImportIdentity (binding : RadarrManualImportBinding) : List Text :=
  let file := binding.file
  let quality := file.quality.quality
  [bytes "manual_import_file_v1", binding.fileID,
    binding.expectedFingerprint.stableFingerprint libraries, binding.importMode, file.path,
    file.folderName, numeral quality.id, quality.name, quality.source,
    numeral quality.resolution, quality.modifier] ++
  revisionIdentity file.quality.revision ++
  numeral file.languages.length ::
    file.languages.flatMap (fun language => [numeral language.id, language.name]) ++
  [file.releaseGroup, numeral file.indexerFlags, file.downloadID, numeral file.movieID]

def manualImportCapabilityID (binding : RadarrManualImportBinding) : Text :=
  opaqueID libraries (bytes "capability") (manualImportIdentity libraries binding)

def bindManualImportCapabilities (found : List ManualImportMatch)
    (history : List RadarrHistoryEvent) :
    Result (List Capability × List (Text × RadarrManualImportBinding)) :=
  found.foldlM (fun (capabilities, bindings) item =>
    match bindRadarrManualImportFile libraries item.file item.absolutePath item.manualImport
        history with
    | none => .ok (capabilities, bindings)
    | some binding =>
      let capabilityID := manualImportCapabilityID libraries binding
      if (bindings.lookup capabilityID).isSome then
        fail "duplicate manual import capability %q" [capabilityID]
      else
        .ok (capabilities ++ [{
            action := bytes "manual_import_file_v1"
            capabilityID := capabilityID
            fileID := some binding.fileID }],
          bindings ++ [(capabilityID, binding)])) ([], [])

/-- A track needs a codec and one of three kinds. -/
def mapTrack (message : String) (track : Track) : Result TrackElement :=
  if track.codec = [] ∨
      track.kind ∉ [bytes "video", bytes "audio", bytes "subtitles"] then fail message
  else .ok ⟨track.kind, track.codec, optionalText track.language⟩

def mapBluRayTracks (tracks : List Track) : Result (List TrackElement) :=
  if tracks.isEmpty ∨ tracks.length > 32 then fail "Blu-ray playlist has an invalid track count"
  else tracks.mapM (mapTrack "Blu-ray playlist has an invalid track")

/-- The identifier and the fingerprint of every file of a list. -/
def fileIdentities (files : List InventoryFile) : List Text :=
  files.flatMap fun file => [file.id, file.fingerprint.stableFingerprint libraries]

/-- The files of a playlist's clips, in its order. -/
def findClips (files : List InventoryFile) (clipFileIDs : List FileID) :
    Result (List InventoryFile) :=
  clipFileIDs.mapM fun clipID =>
    match findFile files clipID with
    | none => fail "Blu-ray clip %q is missing from inventory" [clipID]
    | some clip => .ok clip

def bindBluRayCapability (files : List InventoryFile) (seen : List FileID)
    (playlist : BluRayCandidate) : Result Capability :=
  match findFile files playlist.playlistFileID with
  | none => fail "Blu-ray playlist is missing or duplicated in inventory"
  | some file =>
    if playlist.playlistFileID ∈ seen then
      fail "Blu-ray playlist is missing or duplicated in inventory"
    else if playlist.clipFileIDs.isEmpty ∨ playlist.clipFileIDs.length > 1024 then
      fail "Blu-ray playlist has an invalid clip count"
    else do
      let clips ← findClips files playlist.clipFileIDs
      let tracks ← mapBluRayTracks playlist.tracks
      pure {
        action := bytes "remux_bluray_v1"
        capabilityID := opaqueID libraries (bytes "capability") (
          [bytes "remux_bluray_v1", playlist.playlistFileID,
            file.fingerprint.stableFingerprint libraries, numeral playlist.durationMS,
            numeral playlist.chapters] ++ fileIdentities libraries clips)
        playlistFileID := some playlist.playlistFileID
        clipFileIDS := playlist.clipFileIDs
        durationMS := some playlist.durationMS
        chapterCount := some playlist.chapters
        tracks := tracks }

def bindBluRayCapabilities (playlists : List BluRayCandidate) (files : List InventoryFile) :
    Result (List Capability) :=
  if playlists.length > 128 then fail "too many Blu-ray playlist candidates"
  else do
    let (capabilities, _) ← playlists.foldlM (fun (capabilities, seen) playlist => do
      let capability ← bindBluRayCapability libraries files seen playlist
      pure (capabilities ++ [capability], seen ++ [playlist.playlistFileID])) ([], [])
    pure capabilities

/-- The files of a title's sources, none of them twice. -/
def findSources (files : List InventoryFile) (sourceFileIDs : List FileID) :
    Result (List InventoryFile) :=
  sourceFileIDs.foldlM (fun found fileID =>
    match findFile files fileID with
    | none => fail "DVD title source is missing or duplicated"
    | some file =>
      if found.any fun earlier => earlier.id == fileID then
        fail "DVD title source is missing or duplicated"
      else .ok (found ++ [file])) []

def mapDVDTracks (tracks : List Track) : Result (List TrackElement) := do
  let mapped ← tracks.mapM (mapTrack "DVD title has an invalid track")
  if mapped.isEmpty ∨ mapped.length > 32 then fail "DVD title has an invalid track count"
  else pure mapped

def bindDVDCapability (files : List InventoryFile) (title : DVDCandidate) : Result Capability :=
  match findFile files title.navigationFileID with
  | none => fail "DVD title has incomplete source inventory"
  | some navigation =>
    if title.sourceFileIDs.isEmpty ∨ title.sourceFileIDs.length > 1024 then
      fail "DVD title has incomplete source inventory"
    else if title.number < 1 ∨ title.number > 128 ∨ title.angles ≠ 1 ∨ title.titleSet < 1 ∨
        title.titleSet > 99 ∨ title.titleInSet < 1 ∨ title.titleInSet > 99 ∨
        title.durationMS ≤ 0 ∨ title.chapters ≤ 0 then
      fail "DVD title has invalid navigation metadata"
    else do
      let tracks ← mapDVDTracks title.tracks
      let sources ← findSources files title.sourceFileIDs
      if title.navigationFileID ∉ title.sourceFileIDs then
        fail "DVD navigation file is not bound to title sources"
      else
        pure {
          action := bytes "remux_dvd_v1"
          capabilityID := opaqueID libraries (bytes "capability") (
            [bytes "remux_dvd_v1", title.navigationFileID,
              navigation.fingerprint.stableFingerprint libraries, numeral title.number,
              numeral title.titleSet, numeral title.titleInSet, numeral title.durationMS,
              numeral title.chapters] ++ fileIdentities libraries sources)
          navigationFileID := some title.navigationFileID
          sourceFileIDS := title.sourceFileIDs
          titleNumber := some title.number
          titleSet := some title.titleSet
          titleInSet := some title.titleInSet
          angleCount := some title.angles
          durationMS := some title.durationMS
          chapterCount := some title.chapters
          tracks := tracks }

def bindDVDCapabilities (titles : List DVDCandidate) (files : List InventoryFile) :
    Result (List Capability) :=
  if titles.length > 128 then fail "too many DVD title candidates"
  else titles.mapM (bindDVDCapability libraries files)

/-! ## Values that must stay local -/

def localPaths (observation : Observation) : List Text :=
  [observation.correlation.downloadRoot, observation.correlation.radarr.outputPath,
    observation.correlation.download.outputPath] ++
  observation.correlation.download.files.map DownloadFile.path ++
  observation.inventory.paths.map FilePathMapping.absolutePath ++
  observation.manualImports.map RadarrManualImport.path

def downloadIdentifiers (observation : Observation) : List Text :=
  [observation.correlation.radarr.downloadID, observation.correlation.download.id]

/-- Search the marshalled request for local paths and download identifiers. -/
def rejectLocalValues (request : RepairCaseV3) (observation : Observation) : Result Unit :=
  match request.marshal with
  | none => fail "inspect planner request for local values: %w"
  | some encoded =>
    if (localPaths observation).any fun path => !path.isEmpty && contains encoded path then
      fail "planner request contains a local path"
    else if (downloadIdentifiers observation).any fun identifier =>
        !identifier.isEmpty &&
          contains (toLower libraries.unicode encoded) (toLower libraries.unicode identifier) then
      fail "planner request contains a raw download identifier"
    else .ok ()

/-! ## The whole assembly -/

def schemaVersion : Text := bytes "radarr-repair/v3"

/-- The request before it is checked and named, with the bindings of its
manual imports. -/
def buildRequest (observation : Observation) :
    Result (RepairCaseV3 × List (Text × RadarrManualImportBinding)) := do
  let correlation := observation.correlation
  if observation.observedAt = 0 then fail "observation time is missing"
  else if !correlation.eligible then fail "download correlation is ineligible"
  else if observation.movie.any fun movie => correlation.radarr.movieID != some movie.id then
    fail "Radarr movie does not match the queue record"
  else
    let (inventoryFiles, paths) ← indexInventory observation.inventory
    let probes ← indexProbes observation.probes
    let (candidateFileIDs, files) ←
      mapFiles libraries paths probes (classifyMediaFiles libraries observation.inventory)
    if probes.length ≠ files.length then
      fail "probe outcomes do not exactly match inventory files"
    else
      let downloadRef := opaqueID libraries (bytes "download") [correlation.download.id]
      let manualImports ← matchManualImports observation.manualImports inventoryFiles paths
      let radarr ← mapRadarr libraries observation downloadRef manualImports
      let (manualImportCapabilities, bindings) ←
        bindManualImportCapabilities libraries manualImports observation.history
      let bluRayCapabilities ←
        bindBluRayCapabilities libraries observation.bluRayPlaylists inventoryFiles
      let dvdCapabilities ← bindDVDCapabilities libraries observation.dvdTitles inventoryFiles
      pure ({
        schemaVersion := schemaVersion
        caseID := []
        observedAt := observation.observedAt
        radarr := radarr
        download := mapDownload correlation.download downloadRef files.length
        files := files
        capabilities := joinCapabilities libraries candidateFileIDs ++ manualImportCapabilities ++
          bluRayCapabilities ++ dvdCapabilities }, bindings)

/-- Name a checked request and encode it. -/
def finish (observation : Observation) (request : RepairCaseV3)
    (bindings : List (Text × RadarrManualImportBinding)) : Result Assembly := do
  let caseID ← (calculateCaseID libraries request).mapError
    (.encoding "calculate repair case ID: %w")
  let named := { request with caseID := caseID }
  let encoded ← (encodeCase libraries named).mapError fun err =>
    .invalidEvidence (.encoding "encode repair case: %w" err)
  pure ⟨named, encoded, ⟨caseID, observation, bindings⟩⟩

def assemble (observation : Observation) : Result Assembly := do
  let (request, bindings) ← buildRequest libraries observation
  (rejectLocalValues libraries request observation).mapError .invalidEvidence
  finish libraries observation request bindings

end Assemble

end NixConfig.MediaRepair.CaseBuilder
