/-
# What the controller observes

The observations a repair case is assembled from, and the judgements the
controller passes on them: which inventory files are worth probing, what
duration a probe establishes, and which manual import it could submit exactly
as Radarr listed it.

Open string types of the source (states, kinds, clients) stay texts, since any
value can arrive; a type with a closed meaning is an inductive type, with a
case for any other text where the source has a branch for one. `int64` values
are integers: the only arithmetic here subtracts two positive durations.
-/

import NixConfig.MediaRepair.Contracts

namespace NixConfig.MediaRepair.Controller

open Data
open Contracts (Libraries sha256Text)
open Jobs (Time)

/-! ## Radarr -/

structure RadarrStatusMessage where
  title : Text
  messages : List Text

/-- A queue record, with the fields that a case or its correlation reads. -/
structure RadarrQueueRecord where
  id : Int
  movieID : Option Int
  title : Text
  status : Text
  trackedDownloadStatus : Text
  trackedDownloadState : Text
  statusMessages : List RadarrStatusMessage
  errorMessage : Text
  downloadID : Text
  outputPath : Text

structure RadarrMovie where
  id : Int
  tmdbID : Int
  imdbID : Option Text
  title : Text
  originalTitle : Option Text
  alternateTitles : List Text
  year : Int
  runtimeMinutes : Option Int

structure RadarrQuality where
  id : Int
  name : Text
  source : Text
  resolution : Int
  modifier : Text

structure RadarrQualityRevision where
  version : Int
  real : Int
  isRepack : Bool

structure RadarrQualityModel where
  quality : RadarrQuality
  revision : Option RadarrQualityRevision

structure RadarrLanguage where
  id : Int
  name : Text

structure RadarrHistoryEvent where
  id : Int
  movieID : Int
  downloadID : Text
  eventType : Text
  occurredAt : Time
  sourceTitle : Text
  quality : Option RadarrQualityModel
  languages : List RadarrLanguage

structure RadarrManualImportRejection where
  type : Text
  reason : Text

structure RadarrManualImport where
  path : Text
  folderName : Text
  sizeBytes : Int
  movieID : Int
  downloadID : Text
  quality : Option RadarrQualityModel
  languages : List RadarrLanguage
  releaseGroup : Text
  indexerFlags : Int
  rejections : List RadarrManualImportRejection

/-! ## Downloads -/

structure DownloadFile where
  index : Int
  hasIndex : Bool
  path : Text
  lengthBytes : Int
  bytesCompleted : Int
  selected : Bool

structure Download where
  client : Text
  sourceType : Text
  id : Text
  name : Text
  complete : Bool
  outputPath : Text
  labels : List Text
  completedAt : Option Time
  totalSizeBytes : Int
  contentOwnership : Text
  files : List DownloadFile

inductive CorrelationRejectionReason
  | invalidRadarrDownloadID | invalidDownloadID | downloadIDMismatch | unstableDownload
  | incompleteDownload | noSelectedFiles | invalidDownloadRoot | downloadRootMismatch
  deriving DecidableEq, Repr

structure DownloadCorrelation where
  radarr : RadarrQueueRecord
  download : Download
  downloadRoot : Text
  rejectionReasons : List CorrelationRejectionReason

def DownloadCorrelation.eligible (correlation : DownloadCorrelation) : Bool :=
  correlation.rejectionReasons.isEmpty

/-! ## Files -/

abbrev FileID := Text

/-- `fileidentity.Snapshot` -/
structure FileFingerprint where
  device : UInt64
  inode : UInt64
  sizeBytes : Int
  mTimeNS : Int

/-- The bits of a signed word, read as an unsigned one. -/
def uint64 (value : Int) : Nat := (value % 2 ^ 64).toNat

def stableFingerprintDomain : Text := bytes "media-repair-file-identity-v1" ++ [0]

/-- `StableFingerprint`: the file's identity without the device number. -/
def FileFingerprint.stableFingerprint (libraries : Libraries) (fingerprint : FileFingerprint) :
    Text :=
  sha256Text (libraries.sum256 (stableFingerprintDomain ++ bigEndian64 fingerprint.inode.toNat ++
    bigEndian64 (uint64 fingerprint.sizeBytes) ++ bigEndian64 (uint64 fingerprint.mTimeNS)))

def strictFingerprintDomain : Text := bytes "radarr-repair-file-metadata-v1" ++ [0]

/-- `StrictFingerprint`: everything that a snapshot says. -/
def FileFingerprint.strictFingerprint (libraries : Libraries) (fingerprint : FileFingerprint) :
    Text :=
  sha256Text (libraries.sum256 (strictFingerprintDomain ++ bigEndian64 fingerprint.device.toNat ++
    bigEndian64 fingerprint.inode.toNat ++ bigEndian64 (uint64 fingerprint.sizeBytes) ++
    bigEndian64 (uint64 fingerprint.mTimeNS)))

structure DownloadFileReference where
  index : Int
  hasIndex : Bool
  lengthBytes : Int
  bytesCompleted : Int
  selected : Bool

structure InventoryFile where
  id : FileID
  pathComponents : List Text
  fingerprint : FileFingerprint
  downloadFile : Option DownloadFileReference

structure FilePathMapping where
  fileID : FileID
  absolutePath : Text

structure FileInventory where
  files : List InventoryFile
  paths : List FilePathMapping

/-! ## Which files are media -/

inductive MediaExtension | ts | m2ts | mp4 | mkv | avi
  deriving DecidableEq, Repr

def MediaExtension.text : MediaExtension → Text
  | .ts => bytes "ts"
  | .m2ts => bytes "m2ts"
  | .mp4 => bytes "mp4"
  | .mkv => bytes "mkv"
  | .avi => bytes "avi"

inductive MediaFileDisposition | probeCandidate | evidenceOnly
  deriving DecidableEq, Repr

def MediaFileDisposition.text : MediaFileDisposition → Text
  | .probeCandidate => bytes "probe_candidate"
  | .evidenceOnly => bytes "evidence_only"

inductive MediaFileExclusionReason
  | untracked | unwanted | incomplete | empty | unsupportedExtension
  deriving DecidableEq, Repr

def MediaFileExclusionReason.text : MediaFileExclusionReason → Text
  | .untracked => bytes "untracked"
  | .unwanted => bytes "unwanted"
  | .incomplete => bytes "incomplete"
  | .empty => bytes "empty"
  | .unsupportedExtension => bytes "unsupported_extension"

structure MediaFileAssessment where
  file : InventoryFile
  extension : Option MediaExtension
  disposition : MediaFileDisposition
  exclusionReason : Option MediaFileExclusionReason

def MediaFileAssessment.probeCandidate (assessment : MediaFileAssessment) : Bool :=
  assessment.disposition = .probeCandidate

section Classification

variable (libraries : Libraries)

def supportedMediaExtension (pathComponents : List Text) : Option MediaExtension :=
  match pathComponents.getLast? with
  | none => none
  | some name =>
    let extension := toLower libraries.unicode (pathExt name)
    if extension = bytes ".ts" then some .ts
    else if extension = bytes ".m2ts" then some .m2ts
    else if extension = bytes ".mp4" then some .mp4
    else if extension = bytes ".mkv" then some .mkv
    else if extension = bytes ".avi" then some .avi
    else none

/-- A file below `BDMV` or `VIDEO_TS`: one stream of a disc, never a movie by itself. -/
def isRawDiscPath (pathComponents : List Text) : Bool :=
  pathComponents.dropLast.any fun component =>
    let upper := toUpper libraries.unicode component
    upper = bytes "BDMV" ∨ upper = bytes "VIDEO_TS"

def supportsJoinPartsPath (pathComponents : List Text) : Bool :=
  !pathComponents.isEmpty && !isRawDiscPath libraries pathComponents

def classifyMediaFile (file : InventoryFile) : MediaFileAssessment :=
  let extension := supportedMediaExtension libraries file.pathComponents
  let excluded (reason : MediaFileExclusionReason) : MediaFileAssessment :=
    ⟨file, extension, .evidenceOnly, some reason⟩
  match file.downloadFile with
  | none => excluded .untracked
  | some downloadFile =>
    if !downloadFile.selected then excluded .unwanted
    else if downloadFile.bytesCompleted ≠ downloadFile.lengthBytes then excluded .incomplete
    else if file.fingerprint.sizeBytes ≤ 0 ∨ downloadFile.lengthBytes ≤ 0 then excluded .empty
    else if extension.isNone then excluded .unsupportedExtension
    else ⟨file, extension, .probeCandidate, none⟩

def classifyMediaFiles (inventory : FileInventory) : List MediaFileAssessment :=
  inventory.files.map (classifyMediaFile libraries)

end Classification

/-! ## Probes -/

inductive MediaProbeStatus
  | succeeded | failed | notCollected
  | other (text : Text)
  deriving DecidableEq

def MediaProbeStatus.text : MediaProbeStatus → Text
  | .succeeded => bytes "ok"
  | .failed => bytes "failed"
  | .notCollected => bytes "not_probed"
  | .other text => text

/-- Why a probe has no evidence; `none` is the empty text. -/
inductive MediaProbeReason
  | none
  | notRegularFile | unsupportedFormat | timeout | error | invalidOutput | incompleteMetadata
  | notCandidate | collectionLimit
  | other (text : Text)
  deriving DecidableEq

def MediaProbeReason.text : MediaProbeReason → Text
  | .none => []
  | .notRegularFile => bytes "not_regular_file"
  | .unsupportedFormat => bytes "unsupported_format"
  | .timeout => bytes "timeout"
  | .error => bytes "probe_error"
  | .invalidOutput => bytes "invalid_output"
  | .incompleteMetadata => bytes "incomplete_metadata"
  | .notCandidate => bytes "not_probe_candidate"
  | .collectionLimit => bytes "collection_limit"
  | .other text => text

structure Rational where
  numerator : Int
  denominator : Int
  deriving DecidableEq, Repr

structure ProbeTag where
  name : Text
  value : Text

structure ProbeFormat where
  names : List Text
  durationMS : Option Int
  sizeBytes : Option Int
  bitRateBPS : Option Int

structure ProbeDisposition where
  default : Option Bool
  forced : Option Bool
  hearingImpaired : Option Bool
  visualImpaired : Option Bool

structure ProbeStream where
  index : Int
  kind : Option Text
  codecName : Option Text
  profile : Option Text
  codecTag : Option Text
  width : Option Int
  height : Option Int
  pixelFormat : Option Text
  sampleFormat : Option Text
  sampleRateHz : Option Int
  channels : Option Int
  channelLayout : Option Text
  averageRate : Option Rational
  timeBase : Option Rational
  startTimeMS : Option Int
  durationMS : Option Int
  bitRateBPS : Option Int
  disposition : Option ProbeDisposition
  tags : List ProbeTag

structure ProbeEvidence where
  format : ProbeFormat
  streams : List ProbeStream

structure MediaProbeOutcome where
  status : MediaProbeStatus
  evidence : Option ProbeEvidence
  reason : MediaProbeReason

/-! ## The duration a probe establishes -/

def durationAgreementToleranceMS : Int := 1000

inductive EffectiveDurationSource | format | longestStream | consistentFormatAndStream | unknown
  deriving DecidableEq, Repr

def EffectiveDurationSource.text : EffectiveDurationSource → Text
  | .format => bytes "format"
  | .longestStream => bytes "longest_stream"
  | .consistentFormatAndStream => bytes "consistent_format_and_stream"
  | .unknown => bytes "unknown"

structure ProbeDurationAssessment where
  formatMS : Option Int
  longestStreamMS : Option Int
  effectiveMS : Option Int
  source : EffectiveDurationSource
  conflict : Bool

def usableDuration (duration : Option Int) : Option Int := duration.filter (0 < ·)

def longestAVStreamDuration (streams : List ProbeStream) : Option Int :=
  streams.foldl (fun longest stream =>
    if stream.kind = some (bytes "video") ∨ stream.kind = some (bytes "audio") then
      match usableDuration stream.durationMS, longest with
      | some duration, some best => if duration > best then some duration else some best
      | some duration, none => some duration
      | none, longest => longest
    else longest) none

def assessProbeDuration (evidence : ProbeEvidence) : ProbeDurationAssessment :=
  let formatMS := usableDuration evidence.format.durationMS
  let streamMS := longestAVStreamDuration evidence.streams
  match formatMS, streamMS with
  | none, none => ⟨formatMS, streamMS, none, .unknown, false⟩
  | some duration, none => ⟨formatMS, streamMS, some duration, .format, false⟩
  | none, some duration => ⟨formatMS, streamMS, some duration, .longestStream, false⟩
  | some format, some stream =>
    if max format stream - min format stream > durationAgreementToleranceMS then
      ⟨formatMS, streamMS, none, .unknown, true⟩
    else ⟨formatMS, streamMS, some (max format stream), .consistentFormatAndStream, false⟩

/-! ## Manual imports the controller could submit -/

/-- A string; `copy` is the only mode the controller sets. -/
abbrev RadarrImportMode := Text

def radarrImportModeCopy : RadarrImportMode := bytes "copy"

structure RadarrManualImportCommandFile where
  path : Text
  folderName : Text
  quality : RadarrQualityModel
  languages : List RadarrLanguage
  releaseGroup : Text
  indexerFlags : Int
  downloadID : Text
  movieID : Int

structure RadarrManualImportCommand where
  importMode : RadarrImportMode
  file : RadarrManualImportCommandFile

structure RadarrManualImportBinding where
  fileID : FileID
  expectedFingerprint : FileFingerprint
  importMode : RadarrImportMode
  file : RadarrManualImportCommandFile

def completeText (value : Text) : Bool := !value.isEmpty && trimmed value

def validLanguages (languages : List RadarrLanguage) : Bool :=
  languages.all fun language => completeText language.name

/-- An absolute path in its shortest form that is not the root. -/
def usableOutputPath (outputPath : Text) : Bool :=
  !outputPath.isEmpty && trimmed outputPath && !outputPath.contains 0 && isAbs outputPath &&
    pathClean outputPath == outputPath && outputPath != [slash]

def RadarrManualImportCommand.complete (command : RadarrManualImportCommand) : Bool :=
  command.importMode = radarrImportModeCopy && usableOutputPath command.file.path &&
    (command.file.folderName.isEmpty || completeText command.file.folderName) &&
    completeText command.file.quality.quality.name && validLanguages command.file.languages &&
    (command.file.releaseGroup.isEmpty || completeText command.file.releaseGroup) &&
    completeText command.file.downloadID && 0 < command.file.movieID

def RadarrManualImportBinding.complete (binding : RadarrManualImportBinding) : Bool :=
  !binding.fileID.isEmpty && 0 < binding.expectedFingerprint.sizeBytes &&
    (RadarrManualImportCommand.mk binding.importMode binding.file).complete

section Binding

variable (libraries : Libraries)

/-- The latest grab of the download for the movie; of two at the same time, the
one with the larger number. -/
def latestMatchingGrab (history : List RadarrHistoryEvent) (movieID : Int) (downloadID : Text) :
    Option RadarrHistoryEvent :=
  history.foldl (fun latest event =>
    if event.eventType ≠ bytes "grabbed" ∨ event.movieID ≠ movieID ∨
        !equalFold libraries.unicode event.downloadID downloadID then latest
    else
      match latest with
      | none => some event
      | some best =>
        if event.occurredAt > best.occurredAt ∨
            (event.occurredAt = best.occurredAt ∧ event.id > best.id) then some event
        else some best) none

/-- Quality and languages to import with: Radarr's own, or those of the latest
grab when Radarr could not tell the quality. -/
def importAttributes (manualImport : RadarrManualImport) (history : List RadarrHistoryEvent) :
    Option RadarrQualityModel × List RadarrLanguage :=
  match manualImport.quality with
  | some quality => (some quality, manualImport.languages)
  | none =>
    match latestMatchingGrab libraries history manualImport.movieID manualImport.downloadID with
    | none => (none, manualImport.languages)
    | some grab =>
      (grab.quality,
        if manualImport.languages.isEmpty then grab.languages else manualImport.languages)

def bindRadarrManualImportFile (file : InventoryFile) (absolutePath : Text)
    (manualImport : RadarrManualImport) (history : List RadarrHistoryEvent) :
    Option RadarrManualImportBinding :=
  if !(classifyMediaFile libraries file).probeCandidate ∨
      isRawDiscPath libraries file.pathComponents ∨ manualImport.path ≠ absolutePath ∨
      manualImport.sizeBytes ≠ file.fingerprint.sizeBytes then none
  else
    match importAttributes libraries manualImport history with
    | (none, _) => none
    | (some quality, languages) =>
      if !completeText quality.quality.name ∨ !validLanguages languages then none
      else
        let binding : RadarrManualImportBinding := {
          fileID := file.id
          expectedFingerprint := file.fingerprint
          importMode := radarrImportModeCopy
          file := {
            path := manualImport.path
            folderName := manualImport.folderName
            quality := quality
            languages := languages
            releaseGroup := manualImport.releaseGroup
            indexerFlags := manualImport.indexerFlags
            downloadID := manualImport.downloadID
            movieID := manualImport.movieID } }
        if binding.complete then some binding else none

end Binding

/-! ## Published repairs -/

def publishedNamePrefix : Text := bytes "radarr-repair-"

/-- The part of a text before a suffix, when it has that suffix: `strings.CutSuffix`. -/
def cutSuffix (text suffix : Text) : Option Text :=
  if suffix.isSuffixOf text then some (text.take (text.length - suffix.length)) else none

/-- `repairartifact.IsPublishedName`: the name of a file that a repair published. -/
def isPublishedName (name : Text) : Bool :=
  !name.contains slash && !name.contains 0x5C &&
    match [".avi", ".mkv", ".mp4"].findSome? fun extension => cutSuffix name (bytes extension) with
    | none => false
    | some stem =>
      match List.dropPrefix? stem publishedNamePrefix with
      | none => false
      | some digest => digest.length == 64 && (chars digest).all isHexDigit

end NixConfig.MediaRepair.Controller
