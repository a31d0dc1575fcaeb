/-
# The Lidarr repair contract

What the Lidarr controller tells the planner and what the planner answers: a case
and a decision, and the parts of a case as they are marshalled.
-/

import NixConfig.MediaRepair.Contracts

namespace NixConfig.MediaRepair.LidarrContracts

open Data
open Contracts (orNull texts)
open Jobs (Time)

/-! ## The structures -/

def schemaVersion : Text := bytes "lidarr-repair/v3"

structure Queue where
  queueID : Int
  title : Text
  downloadRef : Text
  messages : List Text

structure Album where
  albumID : Int
  artistID : Int
  artist : Text
  title : Text
  monitored : Bool

structure Release where
  releaseID : Int
  foreignReleaseID : Text
  title : Text
  disambiguation : Text
  format : Text
  countries : List Text
  labels : List Text
  trackCount : Int
  mediumCount : Int
  monitored : Bool

structure Track where
  trackID : Int
  releaseID : Int
  number : Text
  absoluteNumber : Int
  mediumNumber : Int
  title : Text
  durationMS : Int
  hasFile : Bool

structure Tag where
  name : Text
  value : Text

structure Stream where
  kind : Text
  codec : Option Text
  sampleRateHz : Option Int
  channels : Option Int
  bitRateBPS : Option Int

structure Artifact where
  artifactID : Text
  relativePath : Text
  fingerprint : Text
  sizeBytes : Int
  durationMS : Option Int
  /-- A slice that may be nil, which is null in JSON. -/
  formats : Option (List Text)
  tags : List Tag
  streams : List Stream

structure Assessment where
  artifactID : Text
  albumID : Option Int
  releaseID : Option Int
  trackIDs : List Int
  tagTitle : Option Text
  tagArtist : Option Text
  tagAlbum : Option Text
  tagTrackNumbers : List Int
  rejections : List Text

structure Capability where
  action : Text
  capabilityID : Text
  albumID : Int
  artifactIDs : List Text
  releaseID : Int
  trackIDs : List Int

structure Case where
  schemaVersion : Text
  caseID : Text
  observedAt : Time
  queue : Queue
  album : Album
  releases : List Release
  tracks : List Track
  artifacts : List Artifact
  assessments : List Assessment
  capabilities : List Capability

inductive DecisionAction | noRepair | importMissingTracks
  deriving DecidableEq, Repr

def actionImportMissingTracks : Text := bytes "import_missing_tracks_v1"

structure NoRepairDecision where
  schemaVersion : Text
  caseID : Text
  evidenceRefs : List Text

structure TrackMapping where
  artifactID : Text
  trackID : Int

structure ImportMissingTracksDecision where
  schemaVersion : Text
  caseID : Text
  capabilityID : Text
  albumID : Int
  releaseID : Int
  mappings : List TrackMapping
  evidenceRefs : List Text

structure Decision where
  kind : DecisionAction
  noRepair : Option NoRepairDecision
  importMissingTracks : Option ImportMissingTracksDecision

def Decision.caseID (decision : Decision) : Text :=
  match decision.kind with
  | .noRepair => (decision.noRepair.map NoRepairDecision.caseID).getD []
  | .importMissingTracks =>
    (decision.importMissingTracks.map ImportMissingTracksDecision.caseID).getD []

/-! ## Marshalling -/

def Album.json (album : Album) : Json Text := .object [
  ("album_id", .number album.albumID), ("artist_id", .number album.artistID),
  ("artist", .string album.artist), ("title", .string album.title),
  ("monitored", .bool album.monitored)]

def Release.json (release : Release) : Json Text := .object [
  ("release_id", .number release.releaseID),
  ("foreign_release_id", .string release.foreignReleaseID), ("title", .string release.title),
  ("disambiguation", .string release.disambiguation), ("format", .string release.format),
  ("countries", texts release.countries), ("labels", texts release.labels),
  ("track_count", .number release.trackCount), ("medium_count", .number release.mediumCount),
  ("monitored", .bool release.monitored)]

def Track.json (track : Track) : Json Text := .object [
  ("track_id", .number track.trackID), ("release_id", .number track.releaseID),
  ("number", .string track.number), ("absolute_number", .number track.absoluteNumber),
  ("medium_number", .number track.mediumNumber), ("title", .string track.title),
  ("duration_ms", .number track.durationMS), ("has_file", .bool track.hasFile)]

def Tag.json (tag : Tag) : Json Text := .object [
  ("name", .string tag.name), ("value", .string tag.value)]

def Stream.json (stream : Stream) : Json Text := .object [
  ("kind", .string stream.kind), ("codec", orNull .string stream.codec),
  ("sample_rate_hz", orNull .number stream.sampleRateHz),
  ("channels", orNull .number stream.channels),
  ("bit_rate_bps", orNull .number stream.bitRateBPS)]

def Artifact.json (artifact : Artifact) : Json Text := .object [
  ("artifact_id", .string artifact.artifactID), ("relative_path", .string artifact.relativePath),
  ("fingerprint", .string artifact.fingerprint), ("size_bytes", .number artifact.sizeBytes),
  ("duration_ms", orNull .number artifact.durationMS),
  ("formats", orNull texts artifact.formats), ("tags", .array (artifact.tags.map Tag.json)),
  ("streams", .array (artifact.streams.map Stream.json))]

end NixConfig.MediaRepair.LidarrContracts
