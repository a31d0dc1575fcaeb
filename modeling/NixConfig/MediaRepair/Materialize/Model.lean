/-
# Materialization: messages and names

The media worker turns an archive or a directory into a workspace of media files
and answers with a list of artifacts: where each file is, how large it is and
what its digest is. This file has what is said: requests, responses with the
checks on both, the manifest that a workspace keeps of its response, and the
names that are accepted from archives.

JSON replaces the ill-formed bytes of a string when it is written. Whatever is
read back from a manifest has been through that.
-/

import NixConfig.MediaRepair.Contracts

namespace NixConfig.MediaRepair.Materialize

open Data Semantics
open Contracts (Digest sha256Text)
open Contracts.CaseSchema (isOpaqueChar isOpaqueId isSha256Id
  isOpaqueChar_of_isOpaqueId validUtf8_of_isOpaqueId)

/-! ## Names -/

/-- The names on the way to a file. -/
abbrev Path := List Text

/-- `strings.Join(path, "/")` -/
def join (path : Path) : Text := [slash].intercalate path

/-- `strings.Split(name, "/")` -/
def split (name : Text) : Path := name.splitOn slash

theorem join_split (name : Text) : join (split name) = name := List.intercalate_splitOn slash

theorem split_ne_nil (name : Text) : split name ≠ [] := List.splitOnP_ne_nil _ _

def backslash : UInt8 := 0x5C

/-- `strings.TrimSuffix(name, "/")` -/
def trimSlash (name : Text) : Text := if name.getLast? = some slash then name.dropLast else name

/-- A name that is a clean path below the workspace. -/
def checkedName (name : Text) : Option Text :=
  if name = [] ∨ backslash ∈ name ∨ 0 ∈ name ∨ name.head? = some slash then none
  else if pathClean name = [dot] ∨ pathClean name = dotDot ∨
      dotDot ++ [slash] <+: pathClean name ∨ pathClean name ≠ name then none
  else if (split (pathClean name)).all fun component =>
      component ≠ [] ∧ component ≠ [dot] ∧ component ≠ dotDot ∧ component.length ≤ 255 then
    some (pathClean name)
  else none

/-- The name of an archive member, without the slash behind a directory. -/
def safeArchiveName (name : Text) (directory : Bool) : Option Text :=
  checkedName (if directory then trimSlash name else name)

/-- A component of an accepted name. -/
structure SafeComponent (component : Text) : Prop extends PlainElement component where
  backslash_not_mem : backslash ∉ component
  nul_not_mem : 0 ∉ component
  length_le : component.length ≤ 255

/-- The components of an accepted name. -/
structure SafePath (path : Path) : Prop where
  ne_nil : path ≠ []
  safe : ∀ component ∈ path, SafeComponent component

variable {path : Path} {name clean : Text}

theorem SafePath.plain (hsafe : SafePath path) :
    ∀ component ∈ path, PlainElement component :=
  fun component hmem => (hsafe.safe component hmem).toPlainElement

theorem split_join (hsafe : SafePath path) : split (join path) = path :=
  splitOn_join hsafe.ne_nil hsafe.plain

theorem safePath_of_checkedName (hname : checkedName name = some clean) :
    clean = name ∧ SafePath (split name) := by
  simp only [checkedName, Option.ite_none_left_eq_some, Option.ite_none_right_eq_some, not_or,
    List.all_eq_true, decide_eq_true_eq] at hname
  obtain ⟨⟨-, hbackslash, hnul, -⟩, ⟨-, -, -, hclean⟩, hcomponents, ⟨⟩⟩ := hname
  rw [not_not.mp hclean] at hcomponents ⊢
  refine ⟨rfl, split_ne_nil _, fun component hmem => ?_⟩
  obtain ⟨hslash, hsubset⟩ := mem_splitOn hmem
  obtain ⟨hempty, hdot, hdotDot, hlength⟩ := hcomponents component hmem
  exact ⟨⟨hempty, hdot, hdotDot, hslash⟩, fun hmem => hbackslash (hsubset hmem),
    fun hmem => hnul (hsubset hmem), hlength⟩

/-- The components of an accepted name are safe. -/
theorem safePath_of_safeArchiveName {directory : Bool}
    (hname : safeArchiveName name directory = some clean) : SafePath (split clean) := by
  obtain ⟨hclean, hsafe⟩ := safePath_of_checkedName hname
  rw [hclean]
  exact hsafe

/-- A file's name is accepted as it is. -/
theorem eq_of_safeArchiveName (hname : safeArchiveName name false = some clean) : clean = name :=
  (safePath_of_checkedName hname).1

/-- Safe components make an accepted name. -/
theorem safeArchiveName_join (hsafe : SafePath path) :
    safeArchiveName (join path) false = some (join path) := by
  obtain ⟨first, hhead, hfirst⟩ := head?_join hsafe.ne_nil hsafe.plain
  have hclean : pathClean (join path) = join path := pathClean_join hsafe.ne_nil hsafe.plain
  have hne : join path ≠ [] := by
    intro hempty
    rw [join] at hempty
    rw [hempty] at hhead
    cases hhead
  have habsent (byte : UInt8) (hslash : byte ≠ slash)
      (hcomponents : ∀ component ∈ path, byte ∉ component) : byte ∉ join path := by
    intro hmem
    obtain heq | ⟨component, hcomponent, hbyte⟩ := mem_join hmem
    · exact hslash heq
    · exact hcomponents component hcomponent hbyte
  have hbytes : ¬ (join path = [] ∨ backslash ∈ join path ∨ 0 ∈ join path ∨
      (join path).head? = some slash) := by
    rintro (hempty | hbackslash | hnul | hslash)
    · exact hne hempty
    · exact habsent backslash (by decide)
        (fun component hmem => (hsafe.safe component hmem).backslash_not_mem) hbackslash
    · exact habsent 0 (by decide)
        (fun component hmem => (hsafe.safe component hmem).nul_not_mem) hnul
    · rw [join, hhead] at hslash
      exact hfirst (Option.some.inj hslash)
  -- A dotted name would split into dots.
  have hdots : ¬ (join path = [dot] ∨ join path = dotDot ∨ dotDot ++ [slash] <+: join path ∨
      join path ≠ join path) := by
    rintro (hdot | hdotDot | ⟨rest, hrest⟩ | hself)
    · have hsplit := split_join hsafe
      rw [hdot] at hsplit
      exact (hsafe.plain [dot] (by rw [← hsplit]; decide)).ne_dot rfl
    · have hsplit := split_join hsafe
      rw [hdotDot] at hsplit
      exact (hsafe.plain dotDot (by rw [← hsplit]; decide)).ne_dotDot rfl
    · have hsplit := split_join hsafe
      have hdotted : ∀ byte ∈ dotDot, (byte == slash) = false := by decide
      rw [← hrest, split, List.append_assoc, List.singleton_append, List.splitOn,
        List.splitOnP_append_cons_of_forall_mem hdotted slash (by decide)] at hsplit
      exact (hsafe.plain dotDot (by rw [← hsplit]; exact List.mem_cons_self)).ne_dotDot rfl
    · exact hself rfl
  rw [safeArchiveName, if_neg (by decide), checkedName, if_neg hbytes, hclean, if_neg hdots,
    if_pos]
  rw [split_join hsafe, List.all_eq_true]
  intro component hmem
  obtain ⟨⟨hempty, hdot, hdotDot, -⟩, -, -, hlength⟩ := hsafe.safe component hmem
  simp [hempty, hdot, hdotDot, hlength]

/-! ## Requests -/

/-- The operations of the worker's contract. -/
inductive Operation
  /-- `materialize_tar_audio_v1` -/
  | tar
  /-- `materialize_directory_audio_v1` -/
  | directory
  /-- `materialize_tar_video_v1` -/
  | tarVideo
  /-- `materialize_rar_audio_v1` -/
  | rar
  /-- `materialize_rar_video_v1` -/
  | rarVideo
  deriving DecidableEq

/-- `media-repair-worker/v1` -/
def schemaVersion : Text := bytes "media-repair-worker/v1"

structure Request where
  schemaVersion : Text
  requestID : Text
  operation : Operation
  rootID : Text
  sourceComponents : Path
  /-- Empty for a directory. -/
  expectedFingerprint : Text
  workspaceID : Text

def validComponents (components : Path) : Bool :=
  components ≠ [] ∧ components.length ≤ 64 ∧ ∀ component ∈ components,
    component ≠ [] ∧ component ≠ [dot] ∧ component ≠ dotDot ∧ slash ∉ component ∧
      backslash ∉ component ∧ 0 ∉ component

inductive ContractError
  /-- "unsupported materialization contract" -/
  | contract
  /-- "invalid materialization identity" -/
  | identity
  /-- "invalid source path" -/
  | sourcePath
  /-- "directory materialization cannot supply a fingerprint" -/
  | suppliedFingerprint
  /-- "materialization success is incomplete" -/
  | success
  /-- "materialization artifact is incomplete" -/
  | artifact
  /-- "materialization artifact is duplicated" -/
  | duplicate
  /-- "materialization failure is incomplete" -/
  | failure
  /-- "materialization response must contain exactly one result" -/
  | response

def validateRequest (request : Request) : Except ContractError Unit :=
  if request.schemaVersion ≠ schemaVersion then .error .contract
  else if !isOpaqueId (chars request.requestID) ∨ !isOpaqueId (chars request.rootID) ∨
      !isOpaqueId (chars request.workspaceID) then
    .error .identity
  else if !validComponents request.sourceComponents then .error .sourcePath
  else
    match request.operation with
    | .tar | .tarVideo | .rar | .rarVideo =>
      if isSha256Id (chars request.expectedFingerprint) then .ok () else .error .identity
    | .directory =>
      if request.expectedFingerprint = [] then .ok () else .error .suppliedFingerprint

/-- The identifiers of a request are opaque. -/
theorem isOpaqueId_of_validateRequest {request : Request}
    (hvalid : validateRequest request = .ok ()) :
    isOpaqueId (chars request.requestID) ∧ isOpaqueId (chars request.rootID) ∧
      isOpaqueId (chars request.workspaceID) := by
  unfold validateRequest at hvalid
  split at hvalid
  · cases hvalid
  split at hvalid
  · cases hvalid
  rename_i hids
  simpa [not_or] using hids

/-! ### Identifiers -/

/-- Identifiers can be components. -/
theorem validComponents_of_isOpaqueId {text : Text} (hid : isOpaqueId (chars text)) :
    validComponents [text] := by
  -- The bytes that components lack are no opaque characters.
  have habsent (byte : UInt8) (hascii : byte < 0x80)
      (hforeign : isOpaqueChar (Char.ofNat byte.toNat) = false) : byte ∉ text := by
    intro hmem
    rw [← validUtf8_of_isOpaqueId hid] at hmem
    obtain ⟨c, hc, hbyte⟩ := exists_mem_of_mem_utf8 hmem hascii
    have hchar := isOpaqueChar_of_isOpaqueId hid c hc
    rw [← hbyte, Char.ofNat_toNat, hchar] at hforeign
    cases hforeign
  have hne (other : Text) (hother : isOpaqueId (chars other) = false) : text ≠ other := by
    rintro rfl
    rw [hid] at hother
    cases hother
  simp only [validComponents, decide_eq_true_eq, List.forall_mem_singleton]
  exact ⟨List.cons_ne_nil _ _, by simp, hne [] (by decide), hne [dot] (by decide +kernel),
    hne dotDot (by decide +kernel), habsent slash (by decide) (by decide),
    habsent backslash (by decide) (by decide), habsent 0 (by decide) (by decide)⟩

theorem validComponents_append {first second : Path} (hfirst : validComponents first)
    (hsecond : validComponents second) (hlength : first.length + second.length ≤ 64) :
    validComponents (first ++ second) := by
  simp only [validComponents, decide_eq_true_eq] at hfirst hsecond ⊢
  refine ⟨List.append_ne_nil_of_left_ne_nil hfirst.1 _, by rwa [List.length_append], ?_⟩
  intro component hmem
  rcases List.mem_append.mp hmem with hmem | hmem
  · exact hfirst.2.2 component hmem
  · exact hsecond.2.2 component hmem

theorem validComponents_of_safePath (hsafe : SafePath path) (hlength : path.length ≤ 64) :
    validComponents path := by
  simp only [validComponents, decide_eq_true_eq]
  refine ⟨hsafe.ne_nil, hlength, fun component hmem => ?_⟩
  obtain ⟨⟨hempty, hdot, hdotDot, hslash⟩, hbackslash, hnul, -⟩ := hsafe.safe component hmem
  exact ⟨hempty, hdot, hdotDot, hslash, hbackslash, hnul⟩

/-! ## Responses -/

variable {β ε : Type}

/-- A media file of a workspace, with the evidence of the prober. -/
structure Artifact (ε : Type) where
  artifactID : Text
  pathComponents : Path
  relativePath : Text
  sizeBytes : Int
  fingerprint : Text
  evidence : ε

structure Success (ε : Type) where
  schemaVersion : Text
  requestID : Text
  operation : Operation
  rootID : Text
  sourceFingerprint : Text
  workspaceComponents : Path
  artifacts : List (Artifact ε)

/-- Why a request failed. -/
inductive Reason
  | rarUnavailable
  | invalidOperation
  | timeout
  | workspaceError
  | unknownRoot
  | invalidPath
  | fileUnavailable
  | notRegularFile
  | fingerprintMismatch
  | invalidArchive
  | encryptedArchive
  | extractFailed
  | noSupportedAudio
  | directoryReadFailed
  | invalidDirectoryEntry
  | directoryContainsSymlink
  | directoryContainsSpecialFile
  | directoryLimitExceeded
  | directoryEntryInfoFailed
  | copyFailed
  | probeFailed
  | sourceChanged
  | invalidCueSheet
  | invalidDirectory
  deriving DecidableEq

def Reason.text : Reason → Text
  | .rarUnavailable => bytes "rar_unavailable"
  | .invalidOperation => bytes "invalid_operation"
  | .timeout => bytes "timeout"
  | .workspaceError => bytes "workspace_error"
  | .unknownRoot => bytes "unknown_root"
  | .invalidPath => bytes "invalid_path"
  | .fileUnavailable => bytes "file_unavailable"
  | .notRegularFile => bytes "not_regular_file"
  | .fingerprintMismatch => bytes "fingerprint_mismatch"
  | .invalidArchive => bytes "invalid_archive"
  | .encryptedArchive => bytes "encrypted_archive"
  | .extractFailed => bytes "extract_failed"
  | .noSupportedAudio => bytes "no_supported_audio"
  | .directoryReadFailed => bytes "directory_read_failed"
  | .invalidDirectoryEntry => bytes "invalid_directory_entry"
  | .directoryContainsSymlink => bytes "directory_contains_symlink"
  | .directoryContainsSpecialFile => bytes "directory_contains_special_file"
  | .directoryLimitExceeded => bytes "directory_limit_exceeded"
  | .directoryEntryInfoFailed => bytes "directory_entry_info_failed"
  | .copyFailed => bytes "copy_failed"
  | .probeFailed => bytes "probe_failed"
  | .sourceChanged => bytes "source_changed"
  | .invalidCueSheet => bytes "invalid_cue_sheet"
  | .invalidDirectory => bytes "invalid_directory"

structure Failure where
  schemaVersion : Text
  requestID : Text
  operation : Operation
  reason : Text

structure Response (ε : Type) where
  status : Text
  success : Option (Success ε)
  failure : Option Failure

def Response.ok (success : Success ε) : Response ε := ⟨bytes "ok", some success, none⟩

def Response.failed (failure : Failure) : Response ε := ⟨bytes "failed", none, some failure⟩

/-- What is asked of every artifact. -/
def Artifact.complete (artifact : Artifact ε) : Bool :=
  isOpaqueId (chars artifact.artifactID) && isSha256Id (chars artifact.fingerprint) &&
    decide (0 < artifact.sizeBytes) && artifact.relativePath ≠ [] &&
    validComponents artifact.pathComponents

/-- The loop over the artifacts, with the identifiers seen so far. -/
def validateArtifacts (seen : List Text) : List (Artifact ε) → Except ContractError Unit
  | [] => .ok ()
  | artifact :: rest =>
    if !artifact.complete then .error .artifact
    else if artifact.artifactID ∈ seen then .error .duplicate
    else validateArtifacts (artifact.artifactID :: seen) rest

def validateSuccess (success : Success ε) : Except ContractError Unit :=
  if success.schemaVersion ≠ schemaVersion ∨ !isOpaqueId (chars success.requestID) ∨
      !isOpaqueId (chars success.rootID) ∨ !isSha256Id (chars success.sourceFingerprint) ∨
      !validComponents success.workspaceComponents ∨ success.artifacts.isEmpty then
    .error .success
  else validateArtifacts [] success.artifacts

def validateFailure (failure : Failure) : Except ContractError Unit :=
  if failure.schemaVersion ≠ schemaVersion ∨ !isOpaqueId (chars failure.requestID) ∨
      failure.reason = [] then
    .error .failure
  else .ok ()

def validateResponse (response : Response ε) : Except ContractError Unit :=
  match response.success, response.failure with
  | some success, none =>
    if response.status = bytes "ok" then validateSuccess success else .error .response
  | none, some failure =>
    if response.status = bytes "failed" then validateFailure failure else .error .response
  | _, _ => .error .response

/-- `media-repair-artifact-v2` -/
def artifactIdentityDomain : Text := bytes "media-repair-artifact-v2" ++ [0]

/-- `ArtifactID` -/
def artifactIDOf (sum256 : Text → Digest) (relativePath contentFingerprint : Text) : Text :=
  bytes "artifact:" ++
    hexEncode (sum256 (artifactIdentityDomain ++ relativePath ++ [0] ++ contentFingerprint)).val

theorem artifactIDOf_eq_utf8 (sum256 : Text → Digest) (relativePath contentFingerprint : Text) :
    ∃ digest : Digest, artifactIDOf sum256 relativePath contentFingerprint =
      utf8 ("artifact".toList ++ ':' :: hexChars digest.val) := by
  refine ⟨sum256 (artifactIdentityDomain ++ relativePath ++ [0] ++ contentFingerprint), ?_⟩
  rw [artifactIDOf, hexEncode, utf8_append, utf8_cons, ← List.append_assoc]
  rfl

/-! ### Accepted responses -/

/-- What the checks ask of a success. -/
structure Accepted (success : Success ε) : Prop where
  schemaVersion : success.schemaVersion = Materialize.schemaVersion
  requestID : isOpaqueId (chars success.requestID)
  rootID : isOpaqueId (chars success.rootID)
  sourceFingerprint : isSha256Id (chars success.sourceFingerprint)
  workspaceComponents : validComponents success.workspaceComponents
  artifacts_ne_nil : success.artifacts ≠ []
  complete : ∀ artifact ∈ success.artifacts, artifact.complete
  nodup : (success.artifacts.map Artifact.artifactID).Nodup

/-- The loop over the artifacts. -/
theorem validateArtifacts_eq_ok {seen : List Text} {artifacts : List (Artifact ε)} :
    validateArtifacts seen artifacts = .ok () ↔
      (∀ artifact ∈ artifacts, artifact.complete) ∧
        (artifacts.map Artifact.artifactID).Nodup ∧
        ∀ artifact ∈ artifacts, artifact.artifactID ∉ seen := by
  induction artifacts generalizing seen with
  | nil => simp [validateArtifacts]
  | cons artifact rest ih =>
    rw [validateArtifacts]
    cases hcomplete : artifact.complete with
    | false => simp [hcomplete]
    | true =>
      by_cases hseen : artifact.artifactID ∈ seen
      · simp [hseen]
      · -- What comes later must differ from this one and from what was seen.
        have hlater : (∀ other ∈ rest, other.artifactID ∉ artifact.artifactID :: seen) ↔
            artifact.artifactID ∉ rest.map Artifact.artifactID ∧
              ∀ other ∈ rest, other.artifactID ∉ seen := by
          simp only [List.mem_cons, not_or, forall_and, List.mem_map, not_exists, not_and]
        rw [if_neg (by simp), if_neg hseen, ih, hlater, List.forall_mem_cons, List.map_cons,
          List.nodup_cons, List.forall_mem_cons]
        tauto

variable {success : Success ε}

theorem validateSuccess_eq_ok :
    validateSuccess success = .ok () ↔ Accepted success := by
  unfold validateSuccess
  constructor
  · intro hvalid
    split_ifs at hvalid with hfields
    push Not at hfields
    obtain ⟨hversion, hrequest, hroot, hfingerprint, hworkspace, hartifacts⟩ := hfields
    obtain ⟨hcomplete, hnodup, -⟩ := validateArtifacts_eq_ok.mp hvalid
    exact ⟨hversion, by simpa using hrequest, by simpa using hroot, by simpa using hfingerprint,
      by simpa using hworkspace, by simpa using hartifacts, hcomplete, hnodup⟩
  · rintro ⟨hversion, hrequest, hroot, hfingerprint, hworkspace, hartifacts, hcomplete, hnodup⟩
    rw [if_neg (by simp [hversion, hrequest, hroot, hfingerprint, hworkspace, hartifacts]),
      validateArtifacts_eq_ok]
    exact ⟨hcomplete, hnodup, fun artifact _ => List.not_mem_nil⟩

/-! ## Manifests -/

/-- `media-repair-workspace/v3` -/
def manifestVersion : Text := bytes "media-repair-workspace/v3"

structure Manifest (ε : Type) where
  version : Text
  sourceOperation : Operation
  sourceFingerprint : Text
  success : Success ε

section Reading

variable (evidence : ε → ε)

/-- An artifact that was written and read back. -/
def Artifact.readBack (artifact : Artifact ε) : Artifact ε where
  artifactID := validUtf8 artifact.artifactID
  pathComponents := artifact.pathComponents.map validUtf8
  relativePath := validUtf8 artifact.relativePath
  sizeBytes := artifact.sizeBytes
  fingerprint := validUtf8 artifact.fingerprint
  evidence := evidence artifact.evidence

def Success.readBack (success : Success ε) : Success ε where
  schemaVersion := validUtf8 success.schemaVersion
  requestID := validUtf8 success.requestID
  operation := success.operation
  rootID := validUtf8 success.rootID
  sourceFingerprint := validUtf8 success.sourceFingerprint
  workspaceComponents := success.workspaceComponents.map validUtf8
  artifacts := success.artifacts.map (Artifact.readBack evidence)

def Manifest.readBack (manifest : Manifest ε) : Manifest ε where
  version := validUtf8 manifest.version
  sourceOperation := manifest.sourceOperation
  sourceFingerprint := validUtf8 manifest.sourceFingerprint
  success := manifest.success.readBack evidence

end Reading

/-- Well-formed components make a well-formed name. -/
theorem validUtf8_join (hpath : ∀ component ∈ path, validUtf8 component = component) :
    validUtf8 (join path) = join path := by
  obtain ⟨cs, hcs⟩ : ∃ cs, join path = utf8 cs := by
    induction path with
    | nil => exact ⟨[], rfl⟩
    | cons component rest ih =>
      rw [List.forall_mem_cons] at hpath
      obtain ⟨cs, hcs⟩ := ih hpath.2
      rcases rest with _ | ⟨next, rest⟩
      · exact ⟨chars component, by rw [join, List.intercalate_singleton, ← validUtf8, hpath.1]⟩
      · refine ⟨chars component ++ ['/'] ++ cs, ?_⟩
        rw [join, List.intercalate_cons_cons, ← join, hcs, utf8_append, utf8_append, ← validUtf8,
          hpath.1]
        rfl
  rw [hcs, validUtf8_utf8]

/-- Package `encoding/json` on the worker's types, none of which it refuses to
write. -/
structure Codec (β ε : Type) where
  /-- `json.Marshal` of a response. -/
  marshalResponse : Response ε → β
  /-- `json.Marshal` of a manifest. -/
  marshal : Manifest ε → β
  /-- `json.Unmarshal` to a manifest. -/
  unmarshal : β → Option (Manifest ε)
  /-- Evidence that was written and read back. -/
  evidence : ε → ε
  unmarshal_marshal : ∀ manifest, unmarshal (marshal manifest) = some (manifest.readBack evidence)

/-- `EncodeResponse` -/
def encodeResponse (codec : Codec β ε) (response : Response ε) : Except ContractError β := do
  validateResponse response
  return codec.marshalResponse response

/-- A success has an encoding exactly if it passes the checks. -/
theorem encodeResponse_eq_ok {codec : Codec β ε} :
    (∃ data, encodeResponse codec (.ok success) = .ok data) ↔ Accepted success := by
  have hresponse : validateResponse (Response.ok success) = validateSuccess success := rfl
  rw [← validateSuccess_eq_ok, ← hresponse]
  constructor
  · rintro ⟨data, hencode⟩
    obtain ⟨⟨⟩, hvalid, -⟩ := bind_eq_ok.mp hencode
    exact hvalid
  · intro hvalid
    exact ⟨_, bind_eq_ok.mpr ⟨(), hvalid, rfl⟩⟩

end NixConfig.MediaRepair.Materialize
