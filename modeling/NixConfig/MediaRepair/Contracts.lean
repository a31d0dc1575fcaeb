/-
# The repair case contract

What the controller tells the planner: a repair case, the JSON document it is
marshalled to, the schema the document is checked against, and the identity
that a case is named by.

The Go structures are generated from the schema, so their members are the
schema's: a property that is required is always written, with null for an
absent value, and any other property is left out when it is absent. The
members of an object stand in alphabetical order.
-/

import NixConfig.Data.JsonSchema
import NixConfig.Data.Strings
import NixConfig.MediaRepair.Jobs.Model
import NixConfig.Semantics.Fallible

namespace NixConfig.MediaRepair.Contracts

open Data Semantics
open Jobs (Time)

/-! ## The structures -/

structure StatusMessageElement where
  evidenceID : Text
  title : Text
  messages : List Text
  messageCount : Int

structure Failure where
  queueID : Int
  downloadRef : Text
  title : Text
  errorMessage : Text
  status : Text
  trackedDownloadStatus : Text
  trackedDownloadState : Text
  statusMessages : List StatusMessageElement
  statusMessageCount : Int

structure MovieClass where
  radarrID : Int
  tmdbID : Int
  imdbID : Option Text
  title : Text
  originalTitle : Option Text
  alternateTitles : List Text
  year : Int
  runtimeMinutes : Option Int

structure HistoryElement where
  evidenceID : Text
  eventType : Text
  occurredAt : Time
  sourceTitle : Text
  quality : Option Text
  languages : List Text

structure RejectionElement where
  evidenceID : Text
  type : Text
  reason : Text

structure ManualImportElement where
  fileID : Text
  quality : Option Text
  languages : List Text
  releaseGroup : Option Text
  rejections : List RejectionElement

structure Radarr where
  failure : Failure
  movie : Option MovieClass
  history : List HistoryElement
  manualImports : List ManualImportElement

structure Download where
  sourceType : Text
  client : Text
  contentOwnership : Text
  downloadRef : Text
  name : Text
  totalSizeBytes : Int
  fileCount : Int
  isComplete : Bool
  completedAt : Option Time
  labels : List Text

structure DownloadMembershipClass where
  sourceIndex : Option Int
  selected : Bool
  sourceSizeBytes : Int
  availableBytes : Int

structure FrameRate where
  numerator : Int
  denominator : Int

structure DispositionClass where
  default : Bool
  forced : Bool
  hearingImpaired : Bool
  visualImpaired : Bool

structure StreamElement where
  index : Int
  kind : Text
  codecName : Text
  codecTag : Option Text
  profile : Option Text
  timeBase : FrameRate
  startTimeMS : Option Int
  durationMS : Option Int
  bitRateBps : Option Int
  language : Option Text
  disposition : DispositionClass
  width : Option Int
  height : Option Int
  pixelFormat : Option Text
  frameRate : Option FrameRate
  sampleRateHz : Option Int
  channels : Option Int
  channelLayout : Option Text

structure FormatClass where
  names : List Text
  effectiveDurationMS : Option Int
  effectiveDurationSource : Text
  formatDurationMS : Option Int
  longestStreamDurationMS : Option Int
  sizeBytes : Int
  bitRateBps : Option Int

structure Probe where
  status : Text
  reason : Option Text
  summary : Option Text
  format : Option FormatClass
  streams : List StreamElement

structure FileElement where
  fileID : Text
  pathComponents : List Text
  sizeBytes : Int
  downloadMembership : Option DownloadMembershipClass
  fingerprint : Text
  extension : Option Text
  disposition : Text
  dispositionReason : Option Text
  probe : Probe

structure TrackElement where
  kind : Text
  codec : Text
  language : Option Text

/-- The members of all four capabilities; each capability uses its own. -/
structure Capability where
  action : Text
  capabilityID : Text
  candidateFileIDS : List Text := []
  fileID : Option Text := none
  playlistFileID : Option Text := none
  clipFileIDS : List Text := []
  navigationFileID : Option Text := none
  sourceFileIDS : List Text := []
  titleNumber : Option Int := none
  titleSet : Option Int := none
  titleInSet : Option Int := none
  angleCount : Option Int := none
  durationMS : Option Int := none
  chapterCount : Option Int := none
  tracks : List TrackElement := []

structure RepairCaseV3 where
  schemaVersion : Text
  caseID : Text
  observedAt : Time
  radarr : Radarr
  download : Download
  files : List FileElement
  capabilities : List Capability

/-! ## Marshalling -/

/-- A list of strings. -/
def texts (values : List Text) : Json Text := .array (values.map .string)

/-- A time, as `time.Time` marshals itself. -/
def timestamp (time : Time) : Json Text := .string (utf8 (rfc3339 time))

/-- A value that may be absent, written as null when it is. -/
def orNull {α : Type} (json : α → Json Text) : Option α → Json Text
  | none => .null
  | some value => json value

/-- A member that is left out when its value is absent. -/
def omitNil {α : Type} (name : String) (json : α → Json Text) :
    Option α → List (String × Json Text)
  | none => []
  | some value => [(name, json value)]

/-- A member that is left out when its list is empty. -/
def omitEmpty {α : Type} (name : String) (json : α → Json Text) :
    List α → List (String × Json Text)
  | [] => []
  | values => [(name, .array (values.map json))]

def StatusMessageElement.json (message : StatusMessageElement) : Json Text :=
  .object [
    ("evidence_id", .string message.evidenceID),
    ("message_count", .number message.messageCount),
    ("messages", texts message.messages),
    ("title", .string message.title)]

def Failure.json (failure : Failure) : Json Text :=
  .object [
    ("download_ref", .string failure.downloadRef),
    ("error_message", .string failure.errorMessage),
    ("queue_id", .number failure.queueID),
    ("status", .string failure.status),
    ("status_message_count", .number failure.statusMessageCount),
    ("status_messages", .array (failure.statusMessages.map StatusMessageElement.json)),
    ("title", .string failure.title),
    ("tracked_download_state", .string failure.trackedDownloadState),
    ("tracked_download_status", .string failure.trackedDownloadStatus)]

def MovieClass.json (movie : MovieClass) : Json Text :=
  .object [
    ("alternate_titles", texts movie.alternateTitles),
    ("imdb_id", orNull .string movie.imdbID),
    ("original_title", orNull .string movie.originalTitle),
    ("radarr_id", .number movie.radarrID),
    ("runtime_minutes", orNull .number movie.runtimeMinutes),
    ("title", .string movie.title),
    ("tmdb_id", .number movie.tmdbID),
    ("year", .number movie.year)]

def HistoryElement.json (event : HistoryElement) : Json Text :=
  .object [
    ("event_type", .string event.eventType),
    ("evidence_id", .string event.evidenceID),
    ("languages", texts event.languages),
    ("occurred_at", timestamp event.occurredAt),
    ("quality", orNull .string event.quality),
    ("source_title", .string event.sourceTitle)]

def RejectionElement.json (rejection : RejectionElement) : Json Text :=
  .object [
    ("evidence_id", .string rejection.evidenceID),
    ("reason", .string rejection.reason),
    ("type", .string rejection.type)]

def ManualImportElement.json (item : ManualImportElement) : Json Text :=
  .object [
    ("file_id", .string item.fileID),
    ("languages", texts item.languages),
    ("quality", orNull .string item.quality),
    ("rejections", .array (item.rejections.map RejectionElement.json)),
    ("release_group", orNull .string item.releaseGroup)]

def Radarr.json (radarr : Radarr) : Json Text :=
  .object [
    ("failure", radarr.failure.json),
    ("history", .array (radarr.history.map HistoryElement.json)),
    ("manual_imports", .array (radarr.manualImports.map ManualImportElement.json)),
    ("movie", orNull MovieClass.json radarr.movie)]

def Download.json (download : Download) : Json Text :=
  .object [
    ("client", .string download.client),
    ("completed_at", orNull timestamp download.completedAt),
    ("content_ownership", .string download.contentOwnership),
    ("download_ref", .string download.downloadRef),
    ("file_count", .number download.fileCount),
    ("is_complete", .bool download.isComplete),
    ("labels", texts download.labels),
    ("name", .string download.name),
    ("source_type", .string download.sourceType),
    ("total_size_bytes", .number download.totalSizeBytes)]

def DownloadMembershipClass.json (membership : DownloadMembershipClass) : Json Text :=
  .object [
    ("available_bytes", .number membership.availableBytes),
    ("selected", .bool membership.selected),
    ("source_index", orNull .number membership.sourceIndex),
    ("source_size_bytes", .number membership.sourceSizeBytes)]

def FrameRate.json (rate : FrameRate) : Json Text :=
  .object [("denominator", .number rate.denominator), ("numerator", .number rate.numerator)]

def DispositionClass.json (disposition : DispositionClass) : Json Text :=
  .object [
    ("default", .bool disposition.default),
    ("forced", .bool disposition.forced),
    ("hearing_impaired", .bool disposition.hearingImpaired),
    ("visual_impaired", .bool disposition.visualImpaired)]

def StreamElement.json (stream : StreamElement) : Json Text :=
  .object (
    [("bit_rate_bps", orNull .number stream.bitRateBps)] ++
    omitNil "channel_layout" .string stream.channelLayout ++
    omitNil "channels" .number stream.channels ++
    [("codec_name", .string stream.codecName),
      ("codec_tag", orNull .string stream.codecTag),
      ("disposition", stream.disposition.json),
      ("duration_ms", orNull .number stream.durationMS)] ++
    omitNil "frame_rate" FrameRate.json stream.frameRate ++
    omitNil "height" .number stream.height ++
    [("index", .number stream.index),
      ("kind", .string stream.kind),
      ("language", orNull .string stream.language)] ++
    omitNil "pixel_format" .string stream.pixelFormat ++
    [("profile", orNull .string stream.profile)] ++
    omitNil "sample_rate_hz" .number stream.sampleRateHz ++
    [("start_time_ms", orNull .number stream.startTimeMS),
      ("time_base", stream.timeBase.json)] ++
    omitNil "width" .number stream.width)

def FormatClass.json (format : FormatClass) : Json Text :=
  .object [
    ("bit_rate_bps", orNull .number format.bitRateBps),
    ("effective_duration_ms", orNull .number format.effectiveDurationMS),
    ("effective_duration_source", .string format.effectiveDurationSource),
    ("format_duration_ms", orNull .number format.formatDurationMS),
    ("longest_stream_duration_ms", orNull .number format.longestStreamDurationMS),
    ("names", texts format.names),
    ("size_bytes", .number format.sizeBytes)]

def Probe.json (probe : Probe) : Json Text :=
  .object (
    omitNil "format" FormatClass.json probe.format ++
    omitNil "reason" .string probe.reason ++
    [("status", .string probe.status)] ++
    omitEmpty "streams" StreamElement.json probe.streams ++
    omitNil "summary" .string probe.summary)

def FileElement.json (file : FileElement) : Json Text :=
  .object [
    ("disposition", .string file.disposition),
    ("disposition_reason", orNull .string file.dispositionReason),
    ("download_membership", orNull DownloadMembershipClass.json file.downloadMembership),
    ("extension", orNull .string file.extension),
    ("file_id", .string file.fileID),
    ("fingerprint", .string file.fingerprint),
    ("path_components", texts file.pathComponents),
    ("probe", file.probe.json),
    ("size_bytes", .number file.sizeBytes)]

def TrackElement.json (track : TrackElement) : Json Text :=
  .object [
    ("codec", .string track.codec),
    ("kind", .string track.kind),
    ("language", orNull .string track.language)]

def Capability.json (capability : Capability) : Json Text :=
  .object (
    [("action", .string capability.action)] ++
    omitNil "angle_count" .number capability.angleCount ++
    omitEmpty "candidate_file_ids" .string capability.candidateFileIDS ++
    [("capability_id", .string capability.capabilityID)] ++
    omitNil "chapter_count" .number capability.chapterCount ++
    omitEmpty "clip_file_ids" .string capability.clipFileIDS ++
    omitNil "duration_ms" .number capability.durationMS ++
    omitNil "file_id" .string capability.fileID ++
    omitNil "navigation_file_id" .string capability.navigationFileID ++
    omitNil "playlist_file_id" .string capability.playlistFileID ++
    omitEmpty "source_file_ids" .string capability.sourceFileIDS ++
    omitNil "title_in_set" .number capability.titleInSet ++
    omitNil "title_number" .number capability.titleNumber ++
    omitNil "title_set" .number capability.titleSet ++
    omitEmpty "tracks" TrackElement.json capability.tracks)

def RepairCaseV3.json (repairCase : RepairCaseV3) : Json Text :=
  .object [
    ("capabilities", .array (repairCase.capabilities.map Capability.json)),
    ("case_id", .string repairCase.caseID),
    ("download", repairCase.download.json),
    ("files", .array (repairCase.files.map FileElement.json)),
    ("observed_at", timestamp repairCase.observedAt),
    ("radarr", repairCase.radarr.json),
    ("schema_version", .string repairCase.schemaVersion)]

/-- The times that the identity of a case contains. -/
def RepairCaseV3.evidenceTimes (repairCase : RepairCaseV3) : List Time :=
  repairCase.download.completedAt.toList ++ repairCase.radarr.history.map (·.occurredAt)

/-- A time can be marshalled only when its year has four digits. -/
def marshals (time : Time) : Bool := 0 ≤ yearOf time && yearOf time ≤ 9999

/-- `json.Marshal` on a repair case. -/
def RepairCaseV3.marshal (repairCase : RepairCaseV3) : Option Text :=
  if (repairCase.observedAt :: repairCase.evidenceTimes).all marshals then
    some (utf8 repairCase.json.encode)
  else none

/-! ## The schema -/

namespace CaseSchema

open Schema

/-- A required property. -/
def required (name : String) (schema : Schema) : Property := ⟨name, true, schema⟩

/-- A property that may be absent. -/
def optional (name : String) (schema : Schema) : Property := ⟨name, false, schema⟩

/-- A character other than a control character: the class `[^\x00-\x1f\x7f]`. -/
def isPrintable (c : Char) : Bool := 0x20 ≤ c.toNat && c.toNat != 0x7F

def isLowerLetter (c : Char) : Bool := 'a' ≤ c && c ≤ 'z'

/-- A character of the class `[a-z0-9_:-]`. -/
def isOpaqueChar (c : Char) : Bool := isLowerLetter c || c.isDigit || c == '_' || c == ':' || c == '-'

theorem isOpaqueChar_of_isHexDigit {c : Char} (hc : isHexDigit c) : isOpaqueChar c := by
  simp only [isHexDigit, Bool.or_eq_true, Bool.and_eq_true, decide_eq_true_eq] at hc
  simp only [isOpaqueChar, isLowerLetter, Bool.or_eq_true, Bool.and_eq_true, decide_eq_true_eq]
  rcases hc with hdigit | ⟨hlow, hhigh⟩
  · exact .inl (.inl (.inl (.inr hdigit)))
  · exact .inl (.inl (.inl (.inl ⟨hlow, Char.le_trans hhigh (by decide)⟩)))

def nonEmptyText : Schema := string fun cs =>
  1 ≤ cs.length && cs.length ≤ 512 && cs.all isPrintable

def safeText : Schema := string fun cs => cs.length ≤ 1024 && cs.all isPrintable

def isOpaqueId (cs : List Char) : Bool :=
  1 ≤ cs.length && cs.length ≤ 128 && cs.head?.all isLowerLetter && cs.tail.all isOpaqueChar

theorem isOpaqueChar_of_isOpaqueId {cs : List Char} (hid : isOpaqueId cs) :
    ∀ c ∈ cs, isOpaqueChar c := by
  rcases cs with _ | ⟨first, rest⟩
  · cases hid
  simp only [isOpaqueId, Bool.and_eq_true, List.head?_cons, Option.all_some, List.tail_cons,
    List.all_eq_true] at hid
  refine List.forall_mem_cons.mpr ⟨?_, hid.2⟩
  simp [isOpaqueChar, hid.1.2]

/-- Identifiers are well-formed. -/
theorem validUtf8_of_isOpaqueId {text : Text} (hid : isOpaqueId (chars text)) :
    validUtf8 text = text := by
  apply validUtf8_of_not_mem
  intro hmem
  have hchar := isOpaqueChar_of_isOpaqueId hid _ hmem
  revert hchar
  decide

def opaqueId : Schema := string isOpaqueId

def isSha256Id (cs : List Char) : Bool :=
  cs.take 7 = "sha256:".toList && (cs.drop 7).length == 64 && (cs.drop 7).all isHexDigit

def sha256Id : Schema := string isSha256Id

def pathComponent : Schema := string fun cs =>
  1 ≤ cs.length && cs.length ≤ 255 &&
    (cs.all fun c => isPrintable c && c != '/' && c != backslash) &&
    !(cs == ".".toList || cs == "..".toList)

def imdbId : Schema := string fun cs =>
  cs.length ≤ 32 && cs.take 2 = "tt".toList && 7 ≤ (cs.drop 2).length && (cs.drop 2).all Char.isDigit

def nullableTimestamp : Schema := nullable dateTime

def nullableBitRate : Schema := nullable (integer (some 0) (some 10000000000))

def nullableDurationMs : Schema := nullable (integer (some 0) (some 604800000))

/-- A count of bytes that a JSON number represents exactly. -/
def byteCount (minimum : Int) : Schema := integer (some minimum) (some 9007199254740991)

def stringList : Schema := allOf [array nonEmptyText 0 (some 32), uniqueItems]

def alternateTitleList : Schema := allOf [array nonEmptyText 0 (some 1024), uniqueItems]

def statusMessage : Schema := object [
  required "evidence_id" opaqueId,
  required "title" nonEmptyText,
  required "messages" (array safeText 0 (some 16)),
  required "message_count" (integer (some 0) none)]

def queueFailure : Schema := object [
  required "queue_id" (integer (some 1) none),
  required "download_ref" opaqueId,
  required "title" nonEmptyText,
  required "error_message" safeText,
  required "status" nonEmptyText,
  required "tracked_download_status" nonEmptyText,
  required "tracked_download_state" nonEmptyText,
  required "status_messages" (array statusMessage 0 (some 32)),
  required "status_message_count" (integer (some 0) none)]

def movie : Schema := object [
  required "radarr_id" (integer (some 1) none),
  required "tmdb_id" (integer (some 1) none),
  required "imdb_id" (nullable imdbId),
  required "title" nonEmptyText,
  required "original_title" (nullable nonEmptyText),
  required "alternate_titles" alternateTitleList,
  required "year" (integer (some 1870) (some 3000)),
  required "runtime_minutes" (nullable (integer (some 1) (some 10080)))]

def historyEvent : Schema := object [
  required "evidence_id" opaqueId,
  required "event_type" nonEmptyText,
  required "occurred_at" dateTime,
  required "source_title" nonEmptyText,
  required "quality" (nullable nonEmptyText),
  required "languages" stringList]

def manualImportRejection : Schema := object [
  required "evidence_id" opaqueId,
  required "type" (enum ["permanent", "temporary", "unknown"]),
  required "reason" nonEmptyText]

def manualImport : Schema := object [
  required "file_id" opaqueId,
  required "quality" (nullable nonEmptyText),
  required "languages" stringList,
  required "release_group" (nullable nonEmptyText),
  required "rejections" (array manualImportRejection 0 (some 16))]

def radarrEvidence : Schema := object [
  required "failure" queueFailure,
  required "movie" (nullable movie),
  required "history" (array historyEvent 0 (some 32)),
  required "manual_imports" (array manualImport 0 (some 128))]

/-- What a download from one client must say about its source and its content. -/
def clientRule (client sourceType contentOwnership : String) : Schema :=
  ifThen (allOf [property "client" (enum [client]), has "client"])
    (allOf [
      property "source_type" (enum [sourceType]),
      property "content_ownership" (enum [contentOwnership])])

def downloadEvidence : Schema := allOf [
  object [
    required "source_type" (enum ["torrent", "usenet"]),
    required "client" (enum ["transmission", "sabnzbd"]),
    required "download_ref" opaqueId,
    required "name" nonEmptyText,
    required "content_ownership" (enum ["manifest", "output_tree"]),
    required "total_size_bytes" (byteCount 1),
    required "file_count" (integer (some 1) (some 1000000)),
    required "is_complete" boolean,
    required "completed_at" nullableTimestamp,
    required "labels" stringList],
  clientRule "transmission" "torrent" "manifest",
  clientRule "sabnzbd" "usenet" "output_tree"]

def downloadMembership : Schema := object [
  required "source_index" (nullable (integer (some 0) (some 999999))),
  required "selected" boolean,
  required "source_size_bytes" (byteCount 0),
  required "available_bytes" (byteCount 0)]

def rational : Schema := object [
  required "numerator" (integer none none),
  required "denominator" (integer (some 1) none)]

def streamDisposition : Schema := object [
  required "default" boolean,
  required "forced" boolean,
  required "hearing_impaired" boolean,
  required "visual_impaired" boolean]

def mediaStream : Schema := object [
  required "index" (integer (some 0) (some 4095)),
  required "kind" (enum ["video", "audio", "subtitle", "data", "attachment", "other"]),
  required "codec_name" nonEmptyText,
  required "codec_tag" (nullable safeText),
  required "profile" (nullable safeText),
  required "time_base" rational,
  required "start_time_ms" (nullable (integer (some (-604800000)) (some 604800000))),
  required "duration_ms" nullableDurationMs,
  required "bit_rate_bps" nullableBitRate,
  required "language" (nullable nonEmptyText),
  required "disposition" streamDisposition,
  optional "width" (integer (some 1) (some 65536)),
  optional "height" (integer (some 1) (some 65536)),
  optional "pixel_format" nonEmptyText,
  optional "frame_rate" rational,
  optional "sample_rate_hz" (integer (some 1) (some 10000000)),
  optional "channels" (integer (some 1) (some 256)),
  optional "channel_layout" nonEmptyText]

def probeFormat : Schema := object [
  required "names" (allOf [array nonEmptyText 1 (some 16), uniqueItems]),
  required "effective_duration_ms" nullableDurationMs,
  required "effective_duration_source"
    (enum ["format", "longest_stream", "consistent_format_and_stream", "unknown"]),
  required "format_duration_ms" nullableDurationMs,
  required "longest_stream_duration_ms" nullableDurationMs,
  required "size_bytes" (byteCount 1),
  required "bit_rate_bps" nullableBitRate]

def successfulProbe : Schema := object [
  required "status" (enum ["ok"]),
  required "format" probeFormat,
  required "streams" (array mediaStream 1 (some 32))]

/-- A probe without evidence. -/
def unavailableProbe (status : String) (reasons : List String) : Schema := object [
  required "status" (enum [status]),
  required "reason" (enum reasons),
  required "summary" nonEmptyText]

def failedProbe : Schema := unavailableProbe "failed"
  ["not_regular_file", "unsupported_format", "timeout", "probe_error", "invalid_output",
    "incomplete_metadata"]

def notProbed : Schema := unavailableProbe "not_probed" ["not_probe_candidate", "collection_limit"]

def probeResult : Schema := oneOf [successfulProbe, failedProbe, notProbed]

def extensions : Schema := enum ["ts", "m2ts", "mp4", "mkv", "avi"]

def exclusions : Schema :=
  enum ["untracked", "unwanted", "incomplete", "empty", "unsupported_extension"]

def mediaFile : Schema := allOf [
  object [
    required "file_id" opaqueId,
    required "path_components" (array pathComponent 1 (some 32)),
    required "size_bytes" (byteCount 0),
    required "download_membership" (nullable downloadMembership),
    required "fingerprint" sha256Id,
    required "extension" (nullable extensions),
    required "disposition" (enum ["probe_candidate", "evidence_only"]),
    required "disposition_reason" (nullable exclusions),
    required "probe" probeResult],
  ifThen (allOf [property "disposition" (enum ["probe_candidate"]), has "disposition"])
    (allOf [
      property "disposition_reason" null,
      property "download_membership" downloadMembership,
      property "extension" extensions]),
  ifThen (allOf [property "disposition" (enum ["evidence_only"]), has "disposition"])
    (allOf [property "disposition_reason" exclusions, property "probe" notProbed]),
  ifThen (allOf [property "disposition_reason" (enum ["untracked"]), has "disposition_reason"])
    (property "download_membership" null)]

def blurayTrack : Schema := object [
  required "kind" (enum ["video", "audio", "subtitles"]),
  required "codec" nonEmptyText,
  required "language" (nullable nonEmptyText)]

def joinCapability : Schema := object [
  required "capability_id" opaqueId,
  required "action" (enum ["join_parts_v1"]),
  required "candidate_file_ids" (allOf [array opaqueId 2 (some 1024), uniqueItems])]

def manualImportCapability : Schema := object [
  required "capability_id" opaqueId,
  required "action" (enum ["manual_import_file_v1"]),
  required "file_id" opaqueId]

def blurayCapability : Schema := object [
  required "action" (enum ["remux_bluray_v1"]),
  required "capability_id" opaqueId,
  required "playlist_file_id" opaqueId,
  required "clip_file_ids" (array opaqueId 1 (some 1024)),
  required "duration_ms" (integer (some 1) (some 604800000)),
  required "chapter_count" (integer (some 0) (some 4096)),
  required "tracks" (array blurayTrack 1 (some 32))]

def dvdCapability : Schema := object [
  required "action" (enum ["remux_dvd_v1"]),
  required "capability_id" opaqueId,
  required "navigation_file_id" opaqueId,
  required "source_file_ids" (allOf [array opaqueId 1 (some 1024), uniqueItems]),
  required "title_number" (integer (some 1) (some 128)),
  required "title_set" (integer (some 1) (some 99)),
  required "title_in_set" (integer (some 1) (some 99)),
  required "angle_count" (integer (some 1) (some 9)),
  required "duration_ms" (integer (some 1) (some 604800000)),
  required "chapter_count" (integer (some 0) (some 4096)),
  required "tracks" (array blurayTrack 1 (some 32))]

/-- `repair-case.schema.json` -/
def repairCase : Schema := object [
  required "schema_version" (enum ["radarr-repair/v3"]),
  required "case_id" sha256Id,
  required "observed_at" dateTime,
  required "radarr" radarrEvidence,
  required "download" downloadEvidence,
  required "files" (array mediaFile 1 (some 1024)),
  required "capabilities"
    (array (oneOf [joinCapability, manualImportCapability, blurayCapability, dvdCapability]) 0
      (some 385))]

/-! ### No accepted case has a control character in a string -/

/-- A schema that accepts only printable strings. -/
abbrev Printable (schema : Schema) : Prop := Confines (fun c => isPrintable c) schema

theorem isPrintable_of_between {c low high : Char} (hlow : low ≤ c) (hhigh : c ≤ high)
    (hspace : ' ' ≤ low) (htilde : high ≤ '~') : isPrintable c := by
  have hleast : 0x20 ≤ c.toNat := Char.le_def.mp (Char.le_trans hspace hlow)
  have hmost : c.toNat ≤ 0x7E := Char.le_def.mp (Char.le_trans hhigh htilde)
  simp only [isPrintable, Bool.and_eq_true, decide_eq_true_eq, bne_iff_ne]
  omega

theorem isPrintable_of_isLowerLetter {c : Char} (hc : isLowerLetter c) : isPrintable c := by
  simp only [isLowerLetter, Bool.and_eq_true, decide_eq_true_eq] at hc
  exact isPrintable_of_between hc.1 hc.2 (by decide) (by decide)

theorem isPrintable_of_isDigit {c : Char} (hc : c.isDigit) : isPrintable c := by
  simp only [Char.isDigit, Bool.and_eq_true, decide_eq_true_eq] at hc
  exact isPrintable_of_between hc.1 hc.2 (by decide) (by decide)

theorem isPrintable_of_isHexDigit {c : Char} (hc : isHexDigit c) : isPrintable c := by
  simp only [isHexDigit, Bool.or_eq_true, Bool.and_eq_true, decide_eq_true_eq] at hc
  rcases hc with hdigit | hletter
  · exact isPrintable_of_isDigit hdigit
  · exact isPrintable_of_between hletter.1 hletter.2 (by decide) (by decide)

/-- A string in two parts is printable when each part is. -/
theorem isPrintable_of_split {cs : List Char} (n : Nat) (hfront : ∀ c ∈ cs.take n, isPrintable c)
    (hback : ∀ c ∈ cs.drop n, isPrintable c) {c : Char} (hc : c ∈ cs) : isPrintable c := by
  rw [← List.take_append_drop n cs, List.mem_append] at hc
  exact hc.elim (hfront c) (hback c)

theorem printable_nonEmptyText : Printable nonEmptyText := by
  refine .string fun cs hcs c hc => ?_
  simp only [Bool.and_eq_true, List.all_eq_true] at hcs
  exact hcs.2 c hc

theorem printable_safeText : Printable safeText := by
  refine .string fun cs hcs c hc => ?_
  simp only [Bool.and_eq_true, List.all_eq_true] at hcs
  exact hcs.2 c hc

theorem printable_opaqueId : Printable opaqueId := by
  refine .string fun cs hcs c hc => ?_
  have hids := isOpaqueChar_of_isOpaqueId hcs c hc
  simp only [isOpaqueChar, Bool.or_eq_true, beq_iff_eq] at hids
  rcases hids with (((hletter | hdigit) | rfl) | rfl) | rfl
  · exact isPrintable_of_isLowerLetter hletter
  · exact isPrintable_of_isDigit hdigit
  all_goals decide

theorem printable_sha256Id : Printable sha256Id := by
  refine .string fun cs hcs c hc => ?_
  simp only [isSha256Id, Bool.and_eq_true, decide_eq_true_eq, List.all_eq_true] at hcs
  refine isPrintable_of_split 7 ?_ (fun c hc => isPrintable_of_isHexDigit (hcs.2 c hc)) hc
  rw [hcs.1.1]
  decide

theorem printable_pathComponent : Printable pathComponent := by
  refine .string fun cs hcs c hc => ?_
  simp only [Bool.and_eq_true, List.all_eq_true] at hcs
  exact (hcs.1.2 c hc).1.1

theorem printable_imdbId : Printable imdbId := by
  refine .string fun cs hcs c hc => ?_
  simp only [Bool.and_eq_true, decide_eq_true_eq, List.all_eq_true] at hcs
  refine isPrintable_of_split 2 ?_ (fun c hc => isPrintable_of_isDigit (hcs.2 c hc)) hc
  rw [hcs.1.1.2]
  decide

theorem printable_dateTime : Printable dateTime := by
  refine .dateTime fun c hc => ?_
  simp only [isDateTimeChar, Bool.or_eq_true, decide_eq_true_eq] at hc
  rcases hc with hdigit | hmem
  · exact isPrintable_of_isDigit hdigit
  · have hall : ∀ c ∈ "-:.+TtZz".toList, isPrintable c := by decide
    exact hall c hmem

/-- Every string of a case that the schema accepts is free of control
characters. -/
theorem printable_repairCase : Printable repairCase := by
  -- The rules follow the keywords down to the strings.
  repeat' first
    | exact .integer
    | exact .boolean
    | exact .enum (by decide)
    | exact printable_nonEmptyText
    | exact printable_safeText
    | exact printable_opaqueId
    | exact printable_sha256Id
    | exact printable_pathComponent
    | exact printable_imdbId
    | exact printable_dateTime
    | refine .nullable ?_
    | refine .array ?_
    | refine .object ?_
    | refine .allOf List.mem_cons_self ?_
    | refine .oneOf ?_
    | constructor

end CaseSchema

/-! ## Identity and encoding -/

/-- `caseIdentity`, marshalled. -/
def RepairCaseV3.identityJson (repairCase : RepairCaseV3) : Json Text :=
  .object [
    ("capabilities", .array (repairCase.capabilities.map Capability.json)),
    ("download", repairCase.download.json),
    ("files", .array (repairCase.files.map FileElement.json)),
    ("radarr", repairCase.radarr.json),
    ("schema_version", .string repairCase.schemaVersion)]

/-- A SHA-256 digest. -/
def Digest := { data : Text // data.length = 32 }

/-- The code the repair packages call that is not theirs. -/
structure Libraries where
  /-- The tables of package `unicode`. -/
  unicode : Unicode
  /-- `sha256.Sum256` -/
  sum256 : Text → Digest
  /-- `jcs.Transform` -/
  transform : Text → Option Text
  /-- Canonicalisation fails only on what is not JSON. -/
  transform_identity : ∀ repairCase : RepairCaseV3,
    (transform (utf8 repairCase.identityJson.encode)).isSome

/-- A rolling hash of 256 bits. -/
def rollingHash (text : Text) : Nat :=
  text.foldl (fun hash byte => (257 * hash + byte.toNat + 1) % 2 ^ 256) 0

theorem length_words (hash : Nat) :
    ((List.range 32).map fun place => UInt8.ofNat (hash / 256 ^ place)).length = 32 := by
  rw [List.length_map, List.length_range]

/-- A digest that tells short texts apart. -/
def rollingDigest (text : Text) : Digest :=
  ⟨(List.range 32).map fun place => UInt8.ofNat (rollingHash text / 256 ^ place),
    length_words (rollingHash text)⟩

/-- ASCII case tables and a digest that can be computed. -/
def asciiLibraries : Libraries where
  unicode := {
    lower := Char.toLower
    upper := Char.toUpper
    fold := Char.toLower
    lower_ascii := fun _ _ => rfl
    eq_of_lower_sign := by
      intro c _ hletter
      rcases Nat.lt_or_ge c.toNat 0x80 with hsmall | hlarge
      · have hall : ∀ n < 0x80, ¬ (Char.ofNat n).toLower.isAlpha →
            (Char.ofNat n).toLower = Char.ofNat n := by decide
        have hself := hall c.toNat hsmall
        rw [Char.ofNat_toNat] at hself
        exact hself hletter
      · exact toLower_of_le hlarge }
  sum256 := rollingDigest
  transform := some
  transform_identity _ := rfl

/-- A digest as identifiers write it. -/
def sha256Text (digest : Digest) : Text := bytes "sha256:" ++ hexEncode digest.val

theorem sha256Text_eq_utf8 (digest : Digest) :
    sha256Text digest = utf8 ("sha256:".toList ++ hexChars digest.val) := by
  rw [sha256Text, bytes, hexEncode, utf8_append]

theorem sha256Text_injective : Function.Injective sha256Text :=
  fun _ _ heq => Subtype.ext (hexEncode_injective (List.append_cancel_left heq))

theorem length_hexChars_digest (digest : Digest) : (hexChars digest.val).length = 64 := by
  rw [length_hexChars, digest.property]

theorem isSha256Id_digest (digest : Digest) :
    CaseSchema.isSha256Id ("sha256:".toList ++ hexChars digest.val) := by
  have hdrop : ("sha256:".toList ++ hexChars digest.val).drop 7 = hexChars digest.val := rfl
  have htake : ("sha256:".toList ++ hexChars digest.val).take 7 = "sha256:".toList := rfl
  simp only [CaseSchema.isSha256Id, hdrop, htake, length_hexChars_digest, Bool.and_eq_true,
    decide_eq_true_eq, List.all_eq_true, beq_self_eq_true, and_self, true_and]
  exact fun c hc => isHexDigit_of_mem_hexChars hc

/-- A kind and a digest make an opaque identifier. -/
theorem isOpaqueId_digest {kind : List Char} (hkind : CaseSchema.isOpaqueId kind)
    (hshort : kind.length ≤ 63) (digest : Digest) :
    CaseSchema.isOpaqueId (kind ++ ':' :: hexChars digest.val) := by
  rcases kind with _ | ⟨first, rest⟩
  · cases hkind
  simp only [CaseSchema.isOpaqueId, Bool.and_eq_true, decide_eq_true_eq, List.head?_cons,
    Option.all_some, List.tail_cons, List.all_eq_true, List.length_cons, List.cons_append,
    List.length_append, length_hexChars_digest, List.mem_append, List.mem_cons] at hkind hshort ⊢
  refine ⟨⟨⟨by omega, by omega⟩, hkind.1.2⟩, ?_⟩
  rintro c (hc | rfl | hc)
  · exact hkind.2 c hc
  · decide
  · exact CaseSchema.isOpaqueChar_of_isHexDigit (isHexDigit_of_mem_hexChars hc)

/-- Why a repair case has no encoding. -/
inductive EncodeError
  | encodeIdentity | canonicalizeIdentity | caseIDMismatch | encodeCase | invalidCase
  deriving DecidableEq, Repr

def canonicalCaseIdentity (libraries : Libraries) (repairCase : RepairCaseV3) :
    Except EncodeError Text :=
  if repairCase.evidenceTimes.all marshals then
    match libraries.transform (utf8 repairCase.identityJson.encode) with
    | some canonical => .ok canonical
    | none => .error .canonicalizeIdentity
  else .error .encodeIdentity

def calculateCaseID (libraries : Libraries) (repairCase : RepairCaseV3) : Except EncodeError Text :=
  (fun canonical => sha256Text (libraries.sum256 canonical)) <$>
    canonicalCaseIdentity libraries repairCase

/-- `EncodeCase`. The schema judges the document as it is read back, with
ill-formed bytes replaced. -/
def encodeCase (libraries : Libraries) (repairCase : RepairCaseV3) : Except EncodeError Text := do
  let expectedID ← calculateCaseID libraries repairCase
  if repairCase.caseID ≠ expectedID then .error .caseIDMismatch
  else
    match repairCase.marshal with
    | none => .error .encodeCase
    | some data =>
      if CaseSchema.repairCase (repairCase.json.map chars) then .ok data else .error .invalidCase

/-- The identity of a case whose times can be marshalled is a digest. -/
theorem calculateCaseID_of_marshals (libraries : Libraries) {repairCase : RepairCaseV3}
    (htimes : repairCase.evidenceTimes.all marshals) :
    ∃ digest, calculateCaseID libraries repairCase = .ok (sha256Text digest) := by
  obtain ⟨canonical, hcanonical⟩ := Option.isSome_iff_exists.mp
    (libraries.transform_identity repairCase)
  refine ⟨libraries.sum256 canonical, ?_⟩
  rw [calculateCaseID, canonicalCaseIdentity, if_pos htimes, hcanonical]
  rfl

/-- A valid case that bears its identity is encoded. -/
theorem encodeCase_of_valid {libraries : Libraries} {repairCase : RepairCaseV3}
    (hnamed : calculateCaseID libraries repairCase = .ok repairCase.caseID)
    (htimes : (repairCase.observedAt :: repairCase.evidenceTimes).all marshals)
    (hvalid : CaseSchema.repairCase (repairCase.json.map chars)) :
    encodeCase libraries repairCase = .ok (utf8 repairCase.json.encode) := by
  refine bind_eq_ok.mpr ⟨repairCase.caseID, hnamed, ?_⟩
  rw [if_neg (not_not.mpr rfl), RepairCaseV3.marshal, if_pos htimes]
  exact if_pos hvalid

/-- A case that was encoded is named by a digest and valid. -/
theorem encodeCase_eq_ok {libraries : Libraries} {repairCase : RepairCaseV3} {data : Text}
    (hencode : encodeCase libraries repairCase = .ok data) :
    (∃ digest, repairCase.caseID = sha256Text digest) ∧ data = utf8 repairCase.json.encode ∧
      CaseSchema.repairCase (repairCase.json.map chars) := by
  obtain ⟨expectedID, hexpected, hencode⟩ := bind_eq_ok.mp hencode
  obtain ⟨canonical, -, rfl⟩ := map_eq_ok.mp hexpected
  split at hencode
  · cases hencode
  rename_i hnamed
  split at hencode
  · cases hencode
  rename_i marshalled hmarshal
  obtain ⟨-, ⟨⟩⟩ := Option.ite_none_right_eq_some.mp hmarshal
  split at hencode
  · rename_i hvalid
    cases hencode
    exact ⟨⟨_, not_not.mp hnamed⟩, rfl, hvalid⟩
  · cases hencode

end NixConfig.MediaRepair.Contracts
