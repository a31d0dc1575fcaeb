/-
# Materialization: the worker

Three executors share one frame. A request names a workspace. If its manifest
fits the request and the source, the stored response is returned. If not, the
workspace is cleared, and a new one is built in an empty partial directory, which
becomes the workspace once the source was found unchanged and the manifest is
written.

They differ in how they build. A tar archive is unpacked into the partial
directory member by member. A RAR archive is unpacked by a tool into a quarantine
inside the partial directory, and then walked and copied from there. A directory
is scanned and copied, or, if a cue sheet describes its one image, split into
tracks.

The file system fails only for what it holds, and the source does not depend on
the workspace. Tools that read media or archives are parameters: they may fail,
but they write nothing but what they are asked for. Owners, modes and the closing
of files are left out.
-/

import Mathlib.Data.List.Sort
import NixConfig.Data.FileTree
import NixConfig.MediaRepair.Materialize.Model
import NixConfig.Semantics.Traced

namespace NixConfig.MediaRepair.Materialize

open Data Semantics
open Contracts (Digest sha256Text)

variable {α β ε : Type}

/-! ## What the worker works with -/

/-- The kinds of `mediafile.Failure` that are told apart. -/
inductive FailureKind
  | unknownRoot
  | invalidPath
  | fileUnavailable
  | notRegularFile
  | fingerprintMismatch
  | other

/-- The errors that are told apart. -/
inductive Fault
  | file (kind : FailureKind)
  /-- The context is cancelled, or its deadline has passed. -/
  | context
  | noSupportedAudio
  | directoryRead
  | directoryEntry
  | directorySymlink
  | directorySpecial
  | directoryLimit
  | directoryEntryInfo
  | directoryCopy
  | directoryProbe
  | directoryChanged
  | directoryCue
  | rarListing
  | rarExtract
  | rarContent
  | rarEncrypted
  | other

/-- `fileidentity.Snapshot` -/
structure Snapshot where
  device : Int
  inode : Int
  sizeBytes : Int
  mtimeNS : Int

/-- A value as an unsigned 64-bit big-endian word. -/
def word (value : Int) : Text := bigEndian64 (value % 2 ^ 64).toNat

/-- `radarr-repair-file-metadata-v1` -/
def strictFingerprintDomain : Text := bytes "radarr-repair-file-metadata-v1" ++ [0]

/-- `media-repair-file-identity-v1` -/
def stableFingerprintDomain : Text := bytes "media-repair-file-identity-v1" ++ [0]

/-- A file of the source, as it was opened. -/
structure SourceFile (β : Type) where
  snapshot : Snapshot
  content : β

inductive FileKind
  | directory
  | regular
  | symlink
  | special

structure Stat where
  kind : FileKind
  snapshot : Snapshot

/-- An entry of a source directory, and what `Fstatat` says of it. -/
structure DirectoryEntry where
  name : Text
  stat : Option Stat

/-- Access to the media roots. -/
structure Files (β : Type) where
  /-- `Open`, of a path below a root that has the given strict fingerprint. -/
  openFile : Text → Path → Text → Except FailureKind (SourceFile β)
  /-- `OpenDirectory` and `ReadDir` -/
  openDirectory : Text → Path → Except Fault (List DirectoryEntry)
  /-- `Path`, which fails for an unknown root. -/
  path : Text → Except FailureKind Unit
  verify : SourceFile β → Text → Except FailureKind Unit

inductive TarType
  | directory
  | regular
  | other
  deriving DecidableEq

/-- A member of a tar archive, with what can be read of its content. -/
structure TarEntry (β : Type) where
  name : Text
  type : TarType
  size : Int
  content : β

/-- What package `archive/tar` reads: some members, and then the end of the
archive or an error. -/
structure TarArchive (β : Type) where
  entries : List (TarEntry β)
  intact : Bool

structure RarEntry where
  fileName : Text
  fileSize : Option Int
  isDirectory : Bool
  isLink : Bool
  isEncrypted : Bool

structure RarListing where
  formatVersion : Int
  contents : List RarEntry

/-- The tools that read RAR archives. -/
structure RarTools (β : Type) where
  /-- The listing that `lsar` writes, decoded. -/
  lsar : β → Option RarListing
  /-- The content that `unar` writes for a listed file. -/
  unar : β → Text → Option β

/-- The tools that read cue sheets and split images. -/
structure CueTools (β : Type) where
  /-- The starts of the tracks of a sheet. -/
  inspect : β → Option (List Nat)
  /-- The same for the sheet inside an image, if it has one. -/
  inspectEmbedded : β → Option (Option (List Nat))
  /-- A track of an image, from a start on, of a length or to the end. -/
  ffmpeg : β → Nat → Option Nat → Option β

/-- An executor and the code that it calls. Files have contents of a type of their
own. -/
structure Worker (β ε : Type) where
  unicode : Unicode
  /-- SHA-256 of a text. -/
  sum256 : Text → Digest
  length : β → Nat
  /-- SHA-256 of a content. -/
  digest : β → Digest
  codec : Codec β ε
  files : Files β
  /-- The prober, on a file of the workspace. -/
  probe : Path → β → Except Fault ε
  readTar : β → TarArchive β
  rar : Option (RarTools β)
  cue : Option (CueTools β)

/-- Calls that work on media. -/
inductive Call
  | probe (path : Path)
  | extract
  | split

/-- Whether the context is done at the checks that are made, each by its place and
the number of checks there before. -/
structure Context where
  start : Bool
  /-- Before a member of an archive. -/
  entry : Nat → Bool
  /-- Before a directory is opened. -/
  scan : Nat → Bool
  /-- Before a cue sheet is opened. -/
  cue : Nat → Bool
  /-- Before a file is copied. -/
  copy : Nat → Bool
  /-- Before a track is split off. -/
  track : Nat → Bool
  /-- The last scan, after everything was copied. -/
  rescan : Nat → Bool
  recue : Nat → Bool

def check (done : Bool) : Except Fault Unit := if done then .error .context else .ok ()

def orFault (fault : Fault) : Option α → Except Fault α
  | some a => .ok a
  | none => .error fault

namespace Worker

variable (worker : Worker β ε)

/-- `fileidentity.fingerprint` -/
def fingerprintOf (domain : Text) (values : List Int) : Text :=
  sha256Text (worker.sum256 (domain ++ values.flatMap word))

def strictFingerprint (snapshot : Snapshot) : Text :=
  worker.fingerprintOf strictFingerprintDomain
    [snapshot.device, snapshot.inode, snapshot.sizeBytes, snapshot.mtimeNS]

def stableFingerprint (snapshot : Snapshot) : Text :=
  worker.fingerprintOf stableFingerprintDomain
    [snapshot.inode, snapshot.sizeBytes, snapshot.mtimeNS]

/-! ## Files of a workspace -/

def audioExtensions : List Text :=
  [bytes ".flac", bytes ".wav", bytes ".ape", bytes ".wv", bytes ".wvp", bytes ".m4a",
    bytes ".mp3", bytes ".ogg", bytes ".opus"]

def videoExtensions : List Text :=
  [bytes ".ts", bytes ".m2ts", bytes ".mp4", bytes ".mkv", bytes ".avi"]

def maximumEntries : Nat := 4096

def maximumFileBytes : Int := 2 ^ 33

def maximumTotalBytes : Int := 2 ^ 35

/-- Whether a name has one of some extensions. -/
def hasExtension (extensions : List Text) (name : Text) : Bool :=
  toLower worker.unicode (pathExt name) ∈ extensions

/-- Whether a file is larger than allowed, alone or with those before it. -/
def exceeds (size total : Int) : Bool :=
  maximumFileBytes < size || maximumTotalBytes - size < total

/-- The artifact for a file below the workspace. -/
def artifactOf (workspace : Path) (name : Text) (content : β) (evidence : ε) : Artifact ε :=
  let fingerprint := sha256Text (worker.digest content)
  { artifactID := artifactIDOf worker.sum256 name fingerprint
    pathComponents := workspace ++ split name
    relativePath := name
    sizeBytes := worker.length content
    fingerprint
    evidence }

/-- Write a new file, of a size known before: `extractFile` and
`copyDirectoryFile`. -/
def storeFile (tree : FileTree Text β) (name : Text) (size : Int) (content : β) :
    Except Fault (FileTree Text β) := do
  let tree ← orFault .other (tree.mkdirAll (split name).dropLast)
  let tree ← orFault .other (tree.create (split name) content)
  if worker.length content = size then .ok tree else .error .other

/-- Probe a file that was written. -/
def probeFile (workspace : Path) (name : Text) (content : β) (wrap : Fault → Fault) :
    Traced Call Fault (Artifact ε) := do
  let evidence ← Traced.call (.probe (split name))
    ((worker.probe (split name) content).mapError wrap)
  pure (worker.artifactOf workspace name content evidence)

/-- The artifacts in the order of their paths. -/
def sortArtifacts (artifacts : List (Artifact ε)) : List (Artifact ε) :=
  artifacts.insertionSort fun left right => left.relativePath ≤ right.relativePath

/-! ## Tar archives -/

/-- What the loop over the members has done. -/
structure Extraction (β ε : Type) where
  tree : FileTree Text β
  seen : List Text
  totalBytes : Int
  artifacts : List (Artifact ε)

/-- The name of a member, if it is safe and new. -/
def entryName (seen : List Text) (entry : TarEntry β) : Except Fault Text :=
  match safeArchiveName entry.name (entry.type = .directory) with
  | none => .error .other
  | some name => if name ∈ seen then .error .other else .ok name

/-- A regular member. -/
def extractMember (workspace : Path) (extensions : List Text) (state : Extraction β ε)
    (name : Text) (entry : TarEntry β) : Traced Call Fault (Extraction β ε) :=
  if entry.size < 0 ∨ exceeds entry.size state.totalBytes then .quiet (.error .other)
  else do
    let tree ← .quiet (worker.storeFile state.tree name entry.size entry.content)
    let state := { state with tree, totalBytes := state.totalBytes + entry.size }
    if worker.hasExtension extensions name then do
      let artifact ← worker.probeFile workspace name entry.content id
      pure { state with artifacts := state.artifacts ++ [artifact] }
    else pure state

def extractEntry (workspace : Path) (extensions : List Text) (state : Extraction β ε)
    (entry : TarEntry β) : Traced Call Fault (Extraction β ε) := do
  let name ← .quiet (entryName state.seen entry)
  let state := { state with seen := name :: state.seen }
  match entry.type with
  | .directory => do
    let tree ← .quiet (orFault .other (state.tree.mkdirAll (split name)))
    pure { state with tree }
  | .regular => worker.extractMember workspace extensions state name entry
  | .other => .quiet (.error .other)

/-- The loop of `extractAndProbe`, after some entries. -/
def extractEntries (context : Context) (workspace : Path) (extensions : List Text) (intact : Bool) :
    Nat → Extraction β ε → List (TarEntry β) → Traced Call Fault (Extraction β ε)
  | entries, state, [] => do
    .quiet (check (context.entry entries))
    .quiet (if intact then .ok state else .error .other)
  | entries, state, entry :: rest => do
    .quiet (check (context.entry entries))
    .quiet (if maximumEntries < entries + 1 then .error .other else .ok ())
    let state ← worker.extractEntry workspace extensions state entry
    extractEntries context workspace extensions intact (entries + 1) state rest

def extractAndProbe (context : Context) (archive : TarArchive β) (workspace : Path)
    (extensions : List Text) : Traced Call Fault (List (Artifact ε) × FileTree Text β) := do
  let state ← worker.extractEntries context workspace extensions archive.intact 0
    ⟨.empty, [], 0, []⟩ archive.entries
  if state.artifacts.isEmpty then .quiet (.error .other)
  else pure (sortArtifacts state.artifacts, state.tree)

/-! ## RAR archives -/

/-- The loop over the listed members, with the names and the bytes before. -/
def validateRAREntries (seen : List Text) (total : Int) : List RarEntry → Except Fault Unit
  | [] => .ok ()
  | entry :: rest =>
    match safeArchiveName entry.fileName entry.isDirectory with
    | none => .error .rarListing
    | some name =>
      if name ∈ seen then .error .rarListing
      else if entry.isEncrypted then .error .rarEncrypted
      else if entry.isLink then .error .rarListing
      else if entry.isDirectory then validateRAREntries (name :: seen) total rest
      else
        match entry.fileSize with
        | none => .error .rarListing
        | some size =>
          if size < 0 ∨ exceeds size total then .error .rarListing
          else validateRAREntries (name :: seen) (total + size) rest

def validateRARListing (listing : RarListing) : Except Fault Unit :=
  if listing.formatVersion ≠ 2 ∨ listing.contents = [] ∨
      maximumEntries < listing.contents.length then
    .error .rarListing
  else validateRAREntries [] 0 listing.contents

/-- `.rar-extract` -/
def quarantine : Text := bytes ".rar-extract"

/-- A listed member, written into the quarantine. -/
def unpackEntry (tools : RarTools β) (archive : β) (tree : FileTree Text β) (entry : RarEntry) :
    Option (FileTree Text β) :=
  match safeArchiveName entry.fileName entry.isDirectory with
  | none => none
  | some name =>
    if entry.isDirectory then tree.mkdirAll (quarantine :: split name)
    else do
      let content ← tools.unar archive name
      let tree ← tree.mkdirAll (quarantine :: split name).dropLast
      tree.create (quarantine :: split name) content

def unpack (tools : RarTools β) (archive : β) (tree : FileTree Text β) :
    List RarEntry → Option (FileTree Text β)
  | [] => some tree
  | entry :: rest => do
    let tree ← unpackEntry tools archive tree entry
    unpack tools archive tree rest

/-- `Extract`, into the quarantine of a partial workspace. -/
def extract (tools : RarTools β) (archive : β) (tree : FileTree Text β) :
    Except Fault (FileTree Text β) := do
  let listing ← orFault .rarListing (tools.lsar archive)
  validateRARListing listing
  orFault .rarExtract (unpack tools archive tree listing.contents)

/-- What the walk through the quarantine has done. -/
structure Collection (β ε : Type) where
  tree : FileTree Text β
  total : Int
  artifacts : List (Artifact ε)

/-- The paths in a directory of the quarantine, as `WalkDir` sorts them. -/
def below (tree : FileTree Text β) (directory : Path) : List Path :=
  ((tree.names (quarantine :: directory)).insertionSort (· ≤ ·)).map fun name =>
    directory ++ [name]

/-- A file in the quarantine. -/
def collectFile (workspace : Path) (extensions : List Text) (state : Collection β ε) (name : Text)
    (content : β) : Traced Call Fault (Collection β ε) :=
  if exceeds (worker.length content) state.total then .quiet (.error .rarContent)
  else
    let state := { state with total := state.total + worker.length content }
    if worker.hasExtension extensions name then do
      let tree ← .quiet (worker.storeFile state.tree name (worker.length content) content)
      let artifact ← worker.probeFile workspace name content id
      pure { state with tree, artifacts := state.artifacts ++ [artifact] }
    else pure state

/-- A path in the quarantine, and the paths that the walk goes on to from it. -/
def collectPath (workspace : Path) (extensions : List Text) (state : Collection β ε) (path : Path) :
    Traced Call Fault (Collection β ε × List Path) :=
  match state.tree.find (quarantine :: path) with
  | some .directory => do
    let _ ← .quiet (orFault .rarContent (safeArchiveName (join path) true))
    pure (state, below state.tree path)
  | some (.file content) => do
    let name ← .quiet (orFault .rarContent (safeArchiveName (join path) false))
    let state ← worker.collectFile workspace extensions state name content
    pure (state, [])
  | some .special | none => .quiet (.error .rarContent)

/-- The walk of `collectExtractedMedia`, as long as entries are allowed. -/
def collect (context : Context) (workspace : Path) (extensions : List Text) :
    Nat → Collection β ε → List Path → Traced Call Fault (Collection β ε)
  | _, state, [] => pure state
  | 0, _, _ :: _ => do
    .quiet (check (context.entry maximumEntries))
    .quiet (.error .rarContent)
  | left + 1, state, path :: rest => do
    .quiet (check (context.entry (maximumEntries - (left + 1))))
    let found ← worker.collectPath workspace extensions state path
    collect context workspace extensions left found.1 (found.2 ++ rest)

def collectExtractedMedia (context : Context) (workspace : Path) (extensions : List Text)
    (tree : FileTree Text β) : Traced Call Fault (List (Artifact ε) × FileTree Text β) := do
  let state ← worker.collect context workspace extensions maximumEntries ⟨tree, 0, []⟩
    (below tree [])
  if state.artifacts.isEmpty then .quiet (.error .rarContent)
  else pure (sortArtifacts state.artifacts, state.tree)

/-- The quarantine made in the empty partial directory, filled, walked and removed. -/
def buildRAR (context : Context) (tools : RarTools β) (archive : β) (workspace : Path)
    (extensions : List Text) : Traced Call Fault (List (Artifact ε) × FileTree Text β) := do
  let tree ← .quiet (orFault .other (FileTree.empty.mkdir [quarantine]))
  let tree ← Traced.call .extract (extract tools archive tree)
  let built ← worker.collectExtractedMedia context workspace extensions tree
  pure (built.1, built.2.remove [quarantine] (by simp))

/-! ## Directories -/

/-- A file of a source directory. -/
structure DirectoryFile where
  components : Path
  relative : Text
  snapshot : Snapshot

/-- What a scan has found. -/
structure Scan where
  files : List DirectoryFile
  cueFiles : List DirectoryFile
  bytes : Int
  entries : Nat

/-- The image that a cue sheet describes, and where its tracks start. -/
structure CuePlan where
  starts : List Nat
  image : DirectoryFile

structure DirectorySource where
  files : List DirectoryFile
  cueFiles : List DirectoryFile
  cue : Option CuePlan
  fingerprint : Text

def cueCandidate (name : Text) : Bool :=
  bytes ".cue" <:+ toLower worker.unicode name || bytes ".cue.txt" <:+ toLower worker.unicode name

/-- `cuesheet.MaximumBytes` -/
def maximumCueBytes : Int := 2 ^ 20

/-- How large a file may be. -/
def maximumBytes (isCue : Bool) : Int := if isCue then maximumCueBytes else maximumFileBytes

/-- A regular file of a source directory. -/
def scanFile (components relative : Path) (name : Text) (snapshot : Snapshot) (scan : Scan) :
    Except Fault Scan :=
  let audio := worker.hasExtension audioExtensions name
  let isCue := worker.cueCandidate name
  let size := snapshot.sizeBytes
  if !audio && !isCue then .ok scan
  else if (safeArchiveName name false).isNone then .error .directoryEntry
  else if size ≤ 0 ∨ maximumBytes isCue < size ∨ maximumTotalBytes - size < scan.bytes then
    .error .directoryLimit
  else
    let observed : DirectoryFile := ⟨components, join relative, snapshot⟩
    if audio then
      .ok { scan with bytes := scan.bytes + size, files := scan.files ++ [observed] }
    else .ok { scan with bytes := scan.bytes + size, cueFiles := scan.cueFiles ++ [observed] }

/-- A name that no directory should have. -/
def invalidEntryName (name : Text) : Bool :=
  name = [] || name = [dot] || name = dotDot || slash ∈ name || 0 ∈ name || 255 < name.length

/-- An entry of a source directory. -/
def scanEntry (descend : Path → Path → Scan → Except Fault Scan) (absolute relative : Path)
    (scan : Scan) (child : DirectoryEntry) : Except Fault Scan :=
  let scan := { scan with entries := scan.entries + 1 }
  if maximumEntries < scan.entries then .error .directoryLimit
  else if invalidEntryName child.name then .error .directoryEntry
  else
    match child.stat with
    | none => .error .directoryEntryInfo
    | some stat =>
      match stat.kind with
      | .directory =>
        if (safeArchiveName child.name false).isNone then .error .directoryEntry
        else descend (absolute ++ [child.name]) (relative ++ [child.name]) scan
      | .symlink => .error .directorySymlink
      | .special => .error .directorySpecial
      | .regular =>
        worker.scanFile (absolute ++ [child.name]) (relative ++ [child.name]) child.name
          stat.snapshot scan

/-- The loop over the entries of a directory. -/
def scanEntries (descend : Path → Path → Scan → Except Fault Scan) (absolute relative : Path)
    (scan : Scan) : List DirectoryEntry → Except Fault Scan
  | [] => .ok scan
  | child :: rest => do
    let scan ← worker.scanEntry descend absolute relative scan child
    scanEntries descend absolute relative scan rest

/-- A directory, with a way into those below it. -/
def visitWith (done : Nat → Bool) (rootID : Text)
    (descend : Path → Path → Scan → Except Fault Scan) (absolute relative : Path) (scan : Scan) :
    Except Fault Scan := do
  check (done scan.entries)
  let children ← worker.files.openDirectory rootID absolute
  worker.scanEntries descend absolute relative scan
    (children.insertionSort fun left right => left.name ≤ right.name)

/-- The directories are visited to a depth. -/
def visit (done : Nat → Bool) (rootID : Text) :
    Nat → Path → Path → Scan → Except Fault Scan
  | 0 => worker.visitWith done rootID fun _ _ _ => .error .directoryLimit
  | depth + 1 => worker.visitWith done rootID (visit done rootID depth)

/-- The sheet inside an image. -/
def readEmbeddedCuePlan (rootID : Text) (audioFiles : List DirectoryFile) :
    Except Fault (Option CuePlan) :=
  match audioFiles with
  | [image] =>
    if !(worker.hasExtension [bytes ".wv", bytes ".wvp"] image.relative) then .ok none
    else
      match worker.cue with
      | none => .error .directoryCue
      | some tools => do
        let strict := worker.strictFingerprint image.snapshot
        let input ← (worker.files.openFile rootID image.components strict).mapError
          fun _ => .directoryCue
        let found ← orFault .directoryCue (tools.inspectEmbedded input.content)
        (worker.files.verify input strict).mapError fun _ => .directoryCue
        return found.map fun starts => ⟨starts, image⟩
  | _ => .ok none

/-- What one cue sheet says: nothing if it is a text file that is none. -/
def inspectCue (tools : CueTools β) (rootID : Text) (cueFile : DirectoryFile) :
    Except Fault (Option (List Nat)) := do
  let strict := worker.strictFingerprint cueFile.snapshot
  let input ← (worker.files.openFile rootID cueFile.components strict).mapError
    fun _ => .directoryCue
  (worker.files.verify input strict).mapError fun _ => .directoryCue
  match tools.inspect input.content with
  | some starts => .ok (some starts)
  | none =>
    if bytes ".cue.txt" <:+ toLower worker.unicode cueFile.relative then .ok none
    else .error .directoryCue

/-- The loop over the cue sheets, with the plan selected before. -/
def selectCue (done : Nat → Bool) (tools : CueTools β) (rootID : Text)
    (audioFiles : List DirectoryFile) :
    Nat → Option CuePlan → List DirectoryFile → Except Fault (Option CuePlan)
  | _, selected, [] => .ok selected
  | index, selected, cueFile :: rest => do
    check (done index)
    match ← worker.inspectCue tools rootID cueFile with
    | none => selectCue done tools rootID audioFiles (index + 1) selected rest
    | some starts =>
      match selected, audioFiles with
      | none, [image] =>
        selectCue done tools rootID audioFiles (index + 1) (some ⟨starts, image⟩) rest
      | _, _ => .error .directoryCue

def readCuePlan (done : Nat → Bool) (rootID : Text) (audioFiles cueFiles : List DirectoryFile) :
    Except Fault (Option CuePlan) :=
  if cueFiles.isEmpty then worker.readEmbeddedCuePlan rootID audioFiles
  else
    match worker.cue with
    | none => .error .directoryCue
    | some tools => worker.selectCue done tools rootID audioFiles 0 none cueFiles

def directoryFingerprint (files : List DirectoryFile) : Text :=
  sha256Text (worker.sum256 (files.flatMap fun file =>
    file.relative ++ [0] ++ worker.stableFingerprint file.snapshot ++ [0]))

/-- What is known of a source once it was visited. -/
def sourceOf (cueDone : Nat → Bool) (rootID : Text) (scan : Scan) :
    Except Fault DirectorySource :=
  if scan.files.isEmpty then .error .noSupportedAudio
  else do
    let cue ← worker.readCuePlan cueDone rootID scan.files scan.cueFiles
    return ⟨scan.files, scan.cueFiles, cue,
      worker.directoryFingerprint (scan.files ++ scan.cueFiles)⟩

def scanDirectory (scanDone cueDone : Nat → Bool) (rootID : Text) (sourceComponents : Path) :
    Except Fault DirectorySource := do
  let scan ← worker.visit scanDone rootID 64 sourceComponents [] ⟨[], [], 0, 0⟩
  worker.sourceOf cueDone rootID scan

/-- `copyDirectoryFile` of an open source file, which must not change meanwhile. -/
def copySource (rootID : Text) (tree : FileTree Text β) (file : DirectoryFile) :
    Except Fault (FileTree Text β × β) := do
  let strict := worker.strictFingerprint file.snapshot
  let input ← (worker.files.openFile rootID file.components strict).mapError .file
  let tree ← (worker.storeFile tree file.relative file.snapshot.sizeBytes input.content).mapError
    fun _ => .directoryCopy
  (worker.files.verify input strict).mapError fun _ => .directoryCopy
  return (tree, input.content)

/-- The loop of `copyAndProbeDirectory`, after some files. -/
def copyFiles (context : Context) (rootID : Text) (workspace : Path) :
    Nat → FileTree Text β → List (Artifact ε) → List DirectoryFile →
      Traced Call Fault (List (Artifact ε) × FileTree Text β)
  | _, tree, artifacts, [] => pure (artifacts, tree)
  | index, tree, artifacts, file :: rest => do
    .quiet (check (context.copy index))
    let copied ← .quiet (worker.copySource rootID tree file)
    let artifact ← worker.probeFile workspace file.relative copied.2 fun _ => .directoryProbe
    copyFiles context rootID workspace (index + 1) copied.1 (artifacts ++ [artifact]) rest

/-- `%02d.flac` -/
def trackName (index : Nat) : Text := utf8 (padded 2 (index + 1)) ++ bytes ".flac"

/-- `Split` from a track on: the tracks and their names. -/
def splitTracks (context : Context) (tools : CueTools β) (image : β) :
    Nat → FileTree Text β → List Nat → Option (FileTree Text β × List Text)
  | _, tree, [] => some (tree, [])
  | index, tree, start :: rest =>
    if context.track index then none
    else do
      let content ← tools.ffmpeg image start (rest.head?.map (· - start))
      let tree ← tree.create [trackName index] content
      let (tree, names) ← splitTracks context tools image (index + 1) tree rest
      return (tree, trackName index :: names)

/-- `cuesheet.Handler.Split` -/
def splitImage (context : Context) (tools : CueTools β) (image : β) (starts : List Nat)
    (tree : FileTree Text β) : Option (FileTree Text β × List Text) :=
  if starts.length < 2 ∨ 99 < starts.length then none
  else splitTracks context tools image 0 tree starts

/-- A track that was split off, if it is what it should be. -/
def trackContent (tree : FileTree Text β) (total : Int) (name : Text) : Except Fault β :=
  if (safeArchiveName name false).isNone ∨ slash ∈ name then .error .directoryCue
  else
    match tree.find [name] with
    | some (.file content) =>
      if (worker.length content : Int) ≤ 0 ∨ exceeds (worker.length content) total then
        .error .directoryCue
      else .ok content
    | _ => .error .directoryCue

/-- The loop over the tracks that were split off. -/
def probeTracks (workspace : Path) (tree : FileTree Text β) :
    Int → List (Artifact ε) → List Text → Traced Call Fault (List (Artifact ε))
  | _, artifacts, [] => pure artifacts
  | total, artifacts, name :: rest => do
    let content ← .quiet (worker.trackContent tree total name)
    let artifact ← worker.probeFile workspace name content fun _ => .directoryProbe
    probeTracks workspace tree (total + worker.length content) (artifacts ++ [artifact]) rest

/-- `splitAndProbeDirectory` from the open image on. -/
def splitAndProbe (context : Context) (tools : CueTools β) (workspace : Path)
    (image : SourceFile β) (strict : Text) (starts : List Nat) :
    Traced Call Fault (List (Artifact ε) × FileTree Text β) := do
  let split ← Traced.call .split
    (orFault .directoryCue (splitImage context tools image.content starts .empty))
  .quiet ((worker.files.verify image strict).mapError fun _ => .directoryCue)
  let artifacts ← worker.probeTracks workspace split.1 0 [] split.2
  if artifacts.length = starts.length then pure (artifacts, split.1)
  else .quiet (.error .directoryCue)

def splitAndProbeDirectory (context : Context) (rootID : Text) (workspace : Path)
    (plan : CuePlan) : Traced Call Fault (List (Artifact ε) × FileTree Text β) :=
  match worker.cue with
  | none => .quiet (.error .directoryCue)
  | some tools => do
    let strict := worker.strictFingerprint plan.image.snapshot
    let image ← .quiet ((worker.files.openFile rootID plan.image.components strict).mapError
      fun _ => .directoryCopy)
    worker.splitAndProbe context tools workspace image strict plan.starts

def copyAndProbeDirectory (context : Context) (rootID : Text) (workspace : Path)
    (source : DirectorySource) : Traced Call Fault (List (Artifact ε) × FileTree Text β) :=
  match source.cue with
  | some plan => worker.splitAndProbeDirectory context rootID workspace plan
  | none => worker.copyFiles context rootID workspace 0 .empty [] source.files

/-! ## Workspaces -/

/-- What there is at the path of a workspace. -/
inductive Place (β : Type)
  | directory (tree : FileTree Text β)
  /-- A link or a file. -/
  | other

/-- The part of a media root that belongs to one workspace. A partial directory is
emptied before it is used and removed when a build fails, so it is not kept. -/
structure Workspace (β : Type) where
  /-- Whether `.media-repair` is a directory. -/
  base : Bool
  /-- Whether `workspaces` below it is a directory, or can be made one. -/
  parent : Bool
  completed : Option (Place β)

/-- `.materialization.json` -/
def workspaceManifest : Text := bytes ".materialization.json"

def workspaceComponents (request : Request) : Path :=
  [bytes ".media-repair", bytes "workspaces", request.workspaceID]

/-- Whether an artifact of a manifest is where it says. -/
def stored (workspace : Path) (tree : FileTree Text β) (artifact : Artifact ε) : Bool :=
  match safeArchiveName artifact.relativePath false with
  | none => false
  | some name =>
    artifact.pathComponents = workspace ++ split name &&
      match tree.find (split name) with
      | some (.file content) => worker.length content = artifact.sizeBytes
      | _ => false

/-- The response of a manifest, for a request that it fits. -/
def loadManifest (request : Request) (sourceFingerprint : Text) (tree : FileTree Text β)
    (manifest : Manifest ε) : Option (Success ε) :=
  if manifest.version ≠ manifestVersion ∨ manifest.sourceOperation ≠ request.operation ∨
      manifest.sourceFingerprint ≠ sourceFingerprint ∨
      manifest.success.operation ≠ request.operation ∨
      manifest.success.sourceFingerprint ≠ sourceFingerprint ∨
      manifest.success.rootID ≠ request.rootID ∨
      manifest.success.workspaceComponents ≠ workspaceComponents request then none
  else if !manifest.success.artifacts.all (worker.stored (workspaceComponents request) tree) then
    none
  else
    let success := { manifest.success with requestID := request.requestID }
    match encodeResponse worker.codec (.ok success) with
    | .error _ => none
    | .ok _ => some success

/-- The response that a completed workspace keeps. -/
def loadTree (request : Request) (sourceFingerprint : Text) (tree : FileTree Text β) :
    Option (Success ε) :=
  match tree.find [workspaceManifest] with
  | some (.file data) =>
    (worker.codec.unmarshal data).bind (worker.loadManifest request sourceFingerprint tree)
  | _ => none

/-- `loadWorkspace`: nothing if there is no workspace, an error if it cannot be
used. -/
def loadWorkspace (request : Request) (sourceFingerprint : Text) (workspace : Workspace β) :
    Except Unit (Option (Success ε)) :=
  match workspace.completed with
  | none => .ok none
  | some .other => .error ()
  | some (.directory tree) =>
    match worker.loadTree request sourceFingerprint tree with
    | none => .error ()
    | some success => .ok (some success)

def clearWorkspace (workspace : Workspace β) : Option (Workspace β) :=
  match workspace.completed with
  | some .other => none
  | _ => some { workspace with completed := none }

/-- `prepareWorkspace`: whether a partial directory can be made. -/
def prepareWorkspace (workspace : Workspace β) : Bool :=
  workspace.base && workspace.parent && workspace.completed.isNone

def writeManifest (tree : FileTree Text β) (sourceOperation : Operation) (sourceFingerprint : Text)
    (success : Success ε) : Option (FileTree Text β) :=
  tree.write [workspaceManifest]
    (worker.codec.marshal ⟨manifestVersion, sourceOperation, sourceFingerprint, success⟩)

/-! ## Executors -/

def orReason (reason : Reason) : Option α → Except Reason α
  | some a => .ok a
  | none => .error reason

/-- What an executor returns, the workspace afterwards, and the calls it made. -/
structure Outcome (β ε : Type) where
  calls : List Call
  response : Response ε
  workspace : Workspace β

/-- What an executor brings into the frame. -/
structure Plan (β ε : Type) where
  /-- The operation that responses name. -/
  operation : Operation
  sourceFingerprint : Text
  build : Traced Call Fault (List (Artifact ε) × FileTree Text β)
  buildReason : Fault → Reason
  /-- Whether the source is still the same, before a stored response is returned. -/
  confirmStored : Except Reason Unit
  /-- Whether the source is still the same after a build. -/
  confirm : Except Reason Unit

def failed (request : Request) (operation : Operation) (reason : Reason) : Response ε :=
  .failed ⟨schemaVersion, request.requestID, operation, reason.text⟩

/-- The response for a workspace that was built. -/
def successOf (request : Request) (plan : Plan β ε) (artifacts : List (Artifact ε)) : Success ε where
  schemaVersion := schemaVersion
  requestID := request.requestID
  operation := plan.operation
  rootID := request.rootID
  sourceFingerprint := plan.sourceFingerprint
  workspaceComponents := workspaceComponents request
  artifacts := artifacts

/-- Confirm the source, write the manifest and complete the workspace. -/
def complete (request : Request) (plan : Plan β ε) (artifacts : List (Artifact ε))
    (tree : FileTree Text β) : Except Reason (FileTree Text β) := do
  plan.confirm
  orReason .workspaceError (worker.writeManifest tree request.operation plan.sourceFingerprint
    (successOf request plan artifacts))

/-- Build a workspace where there is none. -/
def rebuild (request : Request) (plan : Plan β ε) (workspace : Workspace β) : Outcome β ε :=
  if !prepareWorkspace workspace then
    ⟨[], failed request plan.operation .workspaceError, workspace⟩
  else
    match plan.build.result with
    | .error fault =>
      ⟨plan.build.calls, failed request plan.operation (plan.buildReason fault), workspace⟩
    | .ok (artifacts, tree) =>
      match worker.complete request plan artifacts tree with
      | .error reason => ⟨plan.build.calls, failed request plan.operation reason, workspace⟩
      | .ok tree =>
        ⟨plan.build.calls, .ok (successOf request plan artifacts),
          { workspace with completed := some (.directory tree) }⟩

/-- The frame of the executors. -/
def materialize (request : Request) (plan : Plan β ε) (workspace : Workspace β) : Outcome β ε :=
  if !workspace.base then ⟨[], failed request plan.operation .workspaceError, workspace⟩
  else
    match worker.loadWorkspace request plan.sourceFingerprint workspace with
    | .ok (some success) =>
      match plan.confirmStored with
      | .error reason => ⟨[], failed request plan.operation reason, workspace⟩
      | .ok () => ⟨[], .ok success, workspace⟩
    | .ok none => worker.rebuild request plan workspace
    | .error () =>
      match clearWorkspace workspace with
      | none => ⟨[], failed request plan.operation .workspaceError, workspace⟩
      | some workspace => worker.rebuild request plan workspace

def reasonForFile : FailureKind → Option Reason
  | .unknownRoot => some .unknownRoot
  | .invalidPath => some .invalidPath
  | .fileUnavailable => some .fileUnavailable
  | .notRegularFile => some .notRegularFile
  | .fingerprintMismatch => some .fingerprintMismatch
  | .other => none

def reasonForError : Fault → Reason
  | .file kind => (reasonForFile kind).getD .invalidArchive
  | .context => .timeout
  | _ => .invalidArchive

def reasonForRARError : Fault → Reason
  | .context => .timeout
  | .rarEncrypted => .encryptedArchive
  | .rarExtract => .extractFailed
  | _ => .invalidArchive

def reasonForDirectoryError : Fault → Reason
  | .noSupportedAudio => .noSupportedAudio
  | .directoryRead => .directoryReadFailed
  | .directoryEntry => .invalidDirectoryEntry
  | .directorySymlink => .directoryContainsSymlink
  | .directorySpecial => .directoryContainsSpecialFile
  | .directoryLimit => .directoryLimitExceeded
  | .directoryEntryInfo => .directoryEntryInfoFailed
  | .directoryCopy => .copyFailed
  | .directoryProbe => .probeFailed
  | .directoryChanged => .sourceChanged
  | .directoryCue => .invalidCueSheet
  | .file kind => (reasonForFile kind).getD .invalidDirectory
  | .context => .timeout
  | _ => .invalidDirectory

/-- The extensions that `Execute` looks for. -/
def tarExtensions : Operation → Option (List Text)
  | .tar => some audioExtensions
  | .tarVideo => some videoExtensions
  | _ => none

/-- The extensions that `ExecuteRAR` looks for. -/
def rarExtensions : Operation → Option (List Text)
  | .rar => some audioExtensions
  | .rarVideo => some videoExtensions
  | _ => none

/-- The archive of a request and its stable fingerprint. -/
def openArchive (request : Request) : Except Reason (SourceFile β) := do
  let archive ← (worker.files.openFile request.rootID request.sourceComponents
    request.expectedFingerprint).mapError fun kind => reasonForError (.file kind)
  (worker.files.path request.rootID).mapError fun kind => reasonForError (.file kind)
  return archive

/-- What an archive brings into the frame. -/
def archivePlan (request : Request) (archive : SourceFile β)
    (build : Traced Call Fault (List (Artifact ε) × FileTree Text β))
    (buildReason : Fault → Reason) : Plan β ε :=
  let verified := (worker.files.verify archive request.expectedFingerprint).mapError
    fun kind => reasonForError (.file kind)
  { operation := request.operation
    sourceFingerprint := worker.stableFingerprint archive.snapshot
    build
    buildReason
    confirmStored := verified
    confirm := verified }

def startContext (context : Context) : Except Reason Unit :=
  if context.start then .error .timeout else .ok ()

/-- What a tar archive brings into the frame. -/
def tarPlan (context : Context) (request : Request) : Except Reason (Plan β ε) := do
  let extensions ← orReason .invalidOperation (tarExtensions request.operation)
  startContext context
  let archive ← worker.openArchive request
  return worker.archivePlan request archive
    (worker.extractAndProbe context (worker.readTar archive.content) (workspaceComponents request)
      extensions) reasonForError

/-- What a RAR archive brings into the frame. -/
def rarPlan (context : Context) (request : Request) : Except Reason (Plan β ε) := do
  let tools ← orReason .rarUnavailable worker.rar
  let extensions ← orReason .invalidOperation (rarExtensions request.operation)
  startContext context
  let archive ← worker.openArchive request
  return worker.archivePlan request archive
    (worker.buildRAR context tools archive.content (workspaceComponents request) extensions)
    reasonForRARError

/-- Whether a source directory is still the one that was scanned. -/
def confirmSource (context : Context) (request : Request) (source : DirectorySource) :
    Except Reason Unit :=
  match worker.scanDirectory context.rescan context.recue request.rootID
      request.sourceComponents with
  | .error _ => .error .sourceChanged
  | .ok current =>
    if current.fingerprint = source.fingerprint then .ok () else .error .sourceChanged

/-- What a directory brings into the frame. -/
def directoryPlan (context : Context) (request : Request) : Except Reason (Plan β ε) := do
  startContext context
  let source ← (worker.scanDirectory context.scan context.cue request.rootID
    request.sourceComponents).mapError reasonForDirectoryError
  (worker.files.path request.rootID).mapError fun kind => reasonForDirectoryError (.file kind)
  return {
    operation := .directory
    sourceFingerprint := source.fingerprint
    build := worker.copyAndProbeDirectory context request.rootID (workspaceComponents request)
      source
    buildReason := reasonForDirectoryError
    confirmStored := .ok ()
    confirm := worker.confirmSource context request source }

/-- The frame with a plan, or the reason why there is none. -/
def run (request : Request) (operation : Operation) (plan : Except Reason (Plan β ε))
    (workspace : Workspace β) : Outcome β ε :=
  match plan with
  | .error reason => ⟨[], failed request operation reason, workspace⟩
  | .ok plan => worker.materialize request plan workspace

def execute (context : Context) (request : Request) (workspace : Workspace β) : Outcome β ε :=
  worker.run request request.operation (worker.tarPlan context request) workspace

def executeRAR (context : Context) (request : Request) (workspace : Workspace β) : Outcome β ε :=
  worker.run request request.operation (worker.rarPlan context request) workspace

def executeDirectory (context : Context) (request : Request) (workspace : Workspace β) :
    Outcome β ε :=
  worker.run request .directory (worker.directoryPlan context request) workspace

/-- The three ways into the worker, whatever operation a request names. -/
inductive Executor
  | tar
  | rar
  | directory
  deriving DecidableEq

def plan : Executor → Context → Request → Except Reason (Plan β ε)
  | .tar => worker.tarPlan
  | .rar => worker.rarPlan
  | .directory => worker.directoryPlan

def call : Executor → Context → Request → Workspace β → Outcome β ε
  | .tar => worker.execute
  | .rar => worker.executeRAR
  | .directory => worker.executeDirectory

end Worker

end NixConfig.MediaRepair.Materialize
