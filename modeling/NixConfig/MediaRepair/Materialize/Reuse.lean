/-
# Stored responses

A workspace keeps its response in a manifest, so that the same request can be
answered again without reading the source. The checks for responses are made when
a response is encoded and when a manifest is read, but not when a workspace is
built. So a worker may answer with success and then refuse to encode the answer,
or fail to read its own manifest and build the workspace once more.

Which of this happens depends on the files that the source offers. Empty files
and deep paths are extracted but not accepted in a response. Names that are not
UTF-8 are extracted but do not come back from JSON as they were. Where none of
that is offered, every success can be encoded and is answered again from its
manifest.
-/

import NixConfig.MediaRepair.Materialize.Artifacts

namespace NixConfig.MediaRepair.Materialize

open Data Semantics
open Contracts (Digest sha256Text sha256Text_eq_utf8 isSha256Id_digest
  isOpaqueId_digest)
open Contracts.CaseSchema (isOpaqueId isSha256Id validUtf8_of_isOpaqueId)

variable {β ε : Type}

namespace Worker

variable {worker : Worker β ε} {context : Context} {request : Request} {executor : Executor}
  {plan : Plan β ε} {success : Success ε} {artifacts : List (Artifact ε)}
  {tree completed : FileTree Text β}

/-! ## Loading a workspace -/

theorem stored_iff {workspace : Path} {artifact : Artifact ε} :
    worker.stored workspace tree artifact ↔
      ∃ path content, SafePath path ∧ artifact.relativePath = join path ∧
        artifact.pathComponents = workspace ++ path ∧ tree.find path = some (.file content) ∧
        artifact.sizeBytes = worker.length content := by
  unfold stored
  constructor
  · intro hstored
    split at hstored
    · cases hstored
    rename_i name hname
    obtain rfl := eq_of_safeArchiveName hname
    rw [Bool.and_eq_true, decide_eq_true_eq] at hstored
    obtain ⟨hcomponents, hfile⟩ := hstored
    split at hfile
    · rename_i content hfind
      rw [decide_eq_true_eq] at hfile
      exact ⟨_, content, safePath_of_safeArchiveName hname, (join_split _).symm, hcomponents, hfind,
        hfile.symm⟩
    · cases hfile
  · rintro ⟨path, content, hsafe, hname, hcomponents, hfind, hsize⟩
    rw [hname, safeArchiveName_join hsafe]
    simp [split_join hsafe, hcomponents, hfind, hsize]

/-- What a manifest must say to be used for a request, with the files that it
names in the tree beside it. -/
structure Fits (worker : Worker β ε) (request : Request) (fingerprint : Text)
    (tree : FileTree Text β) (manifest : Manifest ε) : Prop where
  version : manifest.version = manifestVersion
  sourceOperation : manifest.sourceOperation = request.operation
  sourceFingerprint : manifest.sourceFingerprint = fingerprint
  operation : manifest.success.operation = request.operation
  fingerprint : manifest.success.sourceFingerprint = fingerprint
  rootID : manifest.success.rootID = request.rootID
  workspaceComponents : manifest.success.workspaceComponents = workspaceComponents request
  stored : ∀ artifact ∈ manifest.success.artifacts,
    worker.stored (Worker.workspaceComponents request) tree artifact
  accepted : Accepted { manifest.success with requestID := request.requestID }

variable {workspace : Workspace β} {fingerprint : Text} {manifest : Manifest ε}

theorem loadManifest_eq_some :
    worker.loadManifest request fingerprint tree manifest = some success ↔
      worker.Fits request fingerprint tree manifest ∧
        { manifest.success with requestID := request.requestID } = success := by
  simp only [loadManifest, Option.ite_none_left_eq_some, not_or, not_not, Bool.not_eq_true',
    Bool.not_eq_false, List.all_eq_true]
  constructor
  · rintro ⟨⟨hversion, hsource, hprint, hoperation, hsuccess, hroot, hworkspace⟩, hstored, hload⟩
    split at hload
    · cases hload
    rename_i data hencode
    exact ⟨⟨hversion, hsource, hprint, hoperation, hsuccess, hroot, hworkspace, hstored,
      encodeResponse_eq_ok.mp ⟨data, hencode⟩⟩, Option.some.inj hload⟩
  · rintro ⟨hfits, rfl⟩
    obtain ⟨data, hencode⟩ : ∃ data, encodeResponse worker.codec
        (.ok { manifest.success with requestID := request.requestID }) = .ok data :=
      encodeResponse_eq_ok.mpr hfits.accepted
    exact ⟨⟨hfits.version, hfits.sourceOperation, hfits.sourceFingerprint, hfits.operation,
      hfits.fingerprint, hfits.rootID, hfits.workspaceComponents⟩, hfits.stored, by rw [hencode]⟩

/-- A workspace keeps a manifest that fits a request. -/
def Keeps (worker : Worker β ε) (request : Request) (fingerprint : Text) (workspace : Workspace β)
    (manifest : Manifest ε) : Prop :=
  ∃ tree data, workspace.completed = some (.directory tree) ∧
    tree.find [workspaceManifest] = some (.file data) ∧
    worker.codec.unmarshal data = some manifest ∧ worker.Fits request fingerprint tree manifest

theorem loadWorkspace_eq_some :
    worker.loadWorkspace request fingerprint workspace = .ok (some success) ↔
      ∃ manifest, worker.Keeps request fingerprint workspace manifest ∧
        { manifest.success with requestID := request.requestID } = success := by
  constructor
  · intro hload
    unfold loadWorkspace at hload
    split at hload
    · cases hload
    cases hload
    rename_i tree hcompleted
    split at hload
    · cases hload
    rename_i loaded hloaded
    cases hload
    unfold loadTree at hloaded
    split at hloaded
    · rename_i data hfind
      obtain ⟨manifest, hmanifest, hloaded⟩ := Option.bind_eq_some_iff.mp hloaded
      obtain ⟨hfits, hsuccess⟩ := loadManifest_eq_some.mp hloaded
      exact ⟨manifest, ⟨tree, data, hcompleted, hfind, hmanifest, hfits⟩, hsuccess⟩
    · cases hloaded
  · rintro ⟨manifest, ⟨tree, data, hcompleted, hfind, hmanifest, hfits⟩, rfl⟩
    have htree : worker.loadTree request fingerprint tree =
        some { manifest.success with requestID := request.requestID } := by
      rw [loadTree, hfind]
      exact Option.bind_eq_some_iff.mpr ⟨manifest, hmanifest, loadManifest_eq_some.mpr ⟨hfits, rfl⟩⟩
    rw [loadWorkspace, hcompleted]
    dsimp only
    rw [htree]

/-- A manifest is the same for a request with another identifier. -/
theorem Keeps.again {id : Text} (hkeeps : worker.Keeps request fingerprint workspace manifest)
    (hid : isOpaqueId (chars id)) :
    worker.Keeps { request with requestID := id } fingerprint workspace manifest := by
  obtain ⟨tree, data, hcompleted, hfind, hmanifest, hfits⟩ := hkeeps
  refine ⟨tree, data, hcompleted, hfind, hmanifest, ?_⟩
  obtain ⟨hversion, hsource, hprint, hoperation, hsuccess, hroot, hworkspace, hstored,
    haccepted⟩ := hfits
  exact ⟨hversion, hsource, hprint, hoperation, hsuccess, hroot, hworkspace, hstored,
    { haccepted with requestID := hid }⟩

/-! ## Building makes calls -/

section Calls

variable {workspace : Path} {extensions : List Text}

variable {name rootID : Text} {state after : Extraction β ε} {files : List DirectoryFile}

theorem calls_probeFile_ne_nil {content : β} {wrap : Fault → Fault} :
    (worker.probeFile workspace name content wrap).calls ≠ [] := by
  apply List.ne_nil_of_mem
  exact Traced.mem_calls_bind.mpr (.inl (Traced.mem_calls_call.mpr rfl))

/-- A member that is not probed has no artifact. -/
theorem artifacts_of_silent_member {entry : TarEntry β}
    (hok : (worker.extractMember workspace extensions state name entry).result = .ok after)
    (hsilent : (worker.extractMember workspace extensions state name entry).calls = []) :
    after.artifacts = state.artifacts := by
  unfold extractMember at hok hsilent
  split at hok
  · cases hok
  rename_i hsize
  rw [if_neg hsize] at hsilent
  obtain ⟨tree, -, -, hok, hsilent⟩ := Traced.silent_bind hok hsilent
  split_ifs at hok with hmedia
  · rw [if_pos hmedia] at hsilent
    obtain ⟨artifact, -, hprobed, -⟩ := Traced.silent_bind hok hsilent
    exact absurd hprobed calls_probeFile_ne_nil
  · cases hok
    rfl

theorem artifacts_of_silent_entry {entry : TarEntry β}
    (hok : (worker.extractEntry workspace extensions state entry).result = .ok after)
    (hsilent : (worker.extractEntry workspace extensions state entry).calls = []) :
    after.artifacts = state.artifacts := by
  obtain ⟨name, -, -, hok, hsilent⟩ := Traced.silent_bind hok hsilent
  cases htype : entry.type with
  | directory =>
    rw [htype] at hok
    obtain ⟨tree, -, hok⟩ := Traced.result_bind_eq_ok.mp hok
    cases hok
    rfl
  | regular =>
    simp only [htype] at hok hsilent
    have hsame := artifacts_of_silent_member hok hsilent
    exact hsame
  | other =>
    rw [htype] at hok
    cases hok

/-- Without a call the loop over the members finds nothing. -/
theorem artifacts_of_silent_entries {intact : Bool} {count : Nat} {final : Extraction β ε}
    {rest : List (TarEntry β)}
    (hok : (worker.extractEntries context workspace extensions intact count state rest).result =
      .ok final)
    (hsilent : (worker.extractEntries context workspace extensions intact count state rest).calls =
      []) :
    final.artifacts = state.artifacts := by
  induction rest generalizing count state with
  | nil =>
    obtain ⟨-, -, hfinal⟩ := Traced.result_bind_eq_ok.mp hok
    rw [Traced.result_quiet] at hfinal
    split at hfinal
    · cases hfinal
      rfl
    · cases hfinal
  | cons entry rest ih =>
    obtain ⟨-, -, -, hok, hsilent⟩ := Traced.silent_bind hok hsilent
    obtain ⟨-, -, -, hok, hsilent⟩ := Traced.silent_bind hok hsilent
    obtain ⟨next, hnext, hentry, hok, hsilent⟩ := Traced.silent_bind hok hsilent
    rw [ih hok hsilent, artifacts_of_silent_entry hnext hentry]

theorem sortArtifacts_ne_nil (hartifacts : ¬ artifacts.isEmpty) : sortArtifacts artifacts ≠ [] := by
  obtain ⟨artifact, rest, hcons⟩ :=
    List.exists_cons_of_ne_nil fun hempty => hartifacts (List.isEmpty_iff.mpr hempty)
  have hmem : artifact ∈ sortArtifacts artifacts := by
    rw [mem_sortArtifacts, hcons]
    exact List.mem_cons_self
  exact List.ne_nil_of_mem hmem

/-- A build that succeeds has artifacts, and has made calls. -/
def Busy (build : Traced Call Fault (List (Artifact ε) × FileTree Text β)) : Prop :=
  ∀ artifacts tree, build.result = .ok (artifacts, tree) → artifacts ≠ [] ∧ build.calls ≠ []

theorem busy_extractAndProbe {archive : TarArchive β} :
    Busy (worker.extractAndProbe context archive workspace extensions) := by
  intro artifacts tree hok
  constructor
  · obtain ⟨state, -, hok⟩ := Traced.result_bind_eq_ok.mp hok
    split at hok
    · cases hok
    rename_i hsome
    cases hok
    exact sortArtifacts_ne_nil hsome
  · intro hsilent
    obtain ⟨state, hstate, hloop, hok, -⟩ := Traced.silent_bind hok hsilent
    have hnone : state.artifacts = [] := artifacts_of_silent_entries hstate hloop
    rw [hnone] at hok
    cases hok

theorem busy_buildRAR {tools : RarTools β} {archive : β} :
    Busy (worker.buildRAR context tools archive workspace extensions) := by
  intro artifacts tree hok
  constructor
  · simp only [buildRAR, collectExtractedMedia, Traced.result_bind_eq_ok] at hok
    obtain ⟨made, -, unpacked, -, built, ⟨state, -, hbuilt⟩, ⟨⟩⟩ := hok
    split at hbuilt
    · cases hbuilt
    rename_i hsome
    cases hbuilt
    exact sortArtifacts_ne_nil hsome
  · intro hsilent
    obtain ⟨made, -, -, hok, hsilent⟩ := Traced.silent_bind hok hsilent
    obtain ⟨unpacked, -, hextract, -⟩ := Traced.silent_bind hok hsilent
    cases hextract

theorem length_copyFiles {index : Nat} {before : FileTree Text β} {found : List (Artifact ε)}
    (hok : (worker.copyFiles context rootID workspace index before found files).result =
      .ok (artifacts, tree)) : artifacts.length = found.length + files.length := by
  induction files generalizing index before found with
  | nil =>
    cases hok
    rfl
  | cons file rest ih =>
    obtain ⟨-, -, hok⟩ := Traced.result_bind_eq_ok.mp hok
    obtain ⟨copied, -, hok⟩ := Traced.result_bind_eq_ok.mp hok
    obtain ⟨artifact, -, hok⟩ := Traced.result_bind_eq_ok.mp hok
    rw [ih hok, List.length_append, List.length_singleton, List.length_cons]
    omega

theorem busy_copyFiles (hfiles : files ≠ []) :
    Busy (worker.copyFiles context rootID workspace 0 .empty [] files) := by
  intro artifacts tree hok
  obtain ⟨file, rest, rfl⟩ := List.exists_cons_of_ne_nil hfiles
  constructor
  · have hlength := length_copyFiles hok
    rintro rfl
    simp at hlength
  · intro hsilent
    obtain ⟨-, -, -, hok, hsilent⟩ := Traced.silent_bind hok hsilent
    obtain ⟨copied, -, -, hok, hsilent⟩ := Traced.silent_bind hok hsilent
    obtain ⟨artifact, -, hprobed, -⟩ := Traced.silent_bind hok hsilent
    exact absurd hprobed calls_probeFile_ne_nil

theorem busy_splitAndProbe {tools : CueTools β} {image : SourceFile β} {strict : Text}
    {starts : List Nat} :
    Busy (worker.splitAndProbe context tools workspace image strict starts) := by
  intro artifacts tree hok
  constructor
  · obtain ⟨split, hsplit, hok⟩ := Traced.result_bind_eq_ok.mp hok
    obtain ⟨-, -, hok⟩ := Traced.result_bind_eq_ok.mp hok
    obtain ⟨probed, -, hok⟩ := Traced.result_bind_eq_ok.mp hok
    rw [Traced.result_call, orFault_eq_ok, splitImage] at hsplit
    split_ifs at hok with hlength
    · cases hok
      -- An image has two tracks at least.
      rintro rfl
      rw [if_pos (.inl (by rw [← hlength, List.length_nil]; decide))] at hsplit
      cases hsplit
    · cases hok
  · intro hsilent
    obtain ⟨split, -, hcalled, -⟩ := Traced.silent_bind hok hsilent
    cases hcalled

end Calls

theorem busy_of_plan (hplan : worker.plan executor context request = .ok plan) :
    Busy plan.build := by
  cases planned_of_plan hplan with
  | tar => exact busy_extractAndProbe
  | rar => exact busy_buildRAR
  | @directory source hsource =>
    have hfiles := (finds_of_scanDirectory hsource).2
    dsimp only
    unfold copyAndProbeDirectory
    cases hcue : source.cue with
    | none => exact busy_copyFiles hfiles
    | some cue =>
      simp only
      unfold splitAndProbeDirectory
      cases htools : worker.cue with
      | none => exact fun artifacts tree hbuild => by cases hbuild
      | some tools =>
        intro artifacts tree hbuild
        obtain ⟨image, himage, hsplit⟩ := Traced.result_bind_eq_ok.mp hbuild
        obtain ⟨hartifacts, hcalls⟩ := busy_splitAndProbe _ _ hsplit
        refine ⟨hartifacts, fun hsilent => ?_⟩
        obtain ⟨image', himage', -, -, hquiet⟩ := Traced.silent_bind hbuild hsilent
        cases himage.symm.trans himage'
        exact hcalls hquiet

/-! ## Answering again -/

/-- The same request with another identifier is answered with the same artifacts,
and without a call, in every context that is not done before the workspace is
looked at. -/
def Reused (worker : Worker β ε) (executor : Executor) (request : Request)
    (workspace : Workspace β) (artifacts : List (Artifact ε)) : Prop :=
  ∀ later plan id, worker.plan executor later request = .ok plan → isOpaqueId (chars id) →
    (worker.call executor later { request with requestID := id } workspace).calls = [] ∧
    ∃ again, (worker.call executor later { request with requestID := id } workspace).response =
      .ok again ∧ again.artifacts = artifacts

/-- What is brought into the frame depends on the context for the build only. -/
theorem plan_later {later : Context} {plan' : Plan β ε}
    (hplan : worker.plan executor context request = .ok plan)
    (hlater : worker.plan executor later request = .ok plan') :
    plan'.sourceFingerprint = plan.sourceFingerprint ∧
      plan'.confirmStored = plan.confirmStored := by
  cases planned_of_plan hplan with
  | tar _ harchive =>
    have .tar _ harchive' := planned_of_plan hlater
    cases harchive.symm.trans harchive'
    simp only [archivePlan, and_self]
  | rar _ _ harchive =>
    have .rar _ _ harchive' := planned_of_plan hlater
    cases harchive.symm.trans harchive'
    simp only [archivePlan, and_self]
  | directory hsource =>
    have .directory hsource' := planned_of_plan hlater
    obtain rfl := scanDirectory_unique hsource hsource'
    exact ⟨rfl, rfl⟩

/-- What is kept is returned. -/
theorem call_of_keeps (hplan : worker.plan executor context request = .ok plan)
    (hbase : workspace.base) (hconfirm : plan.confirmStored = .ok ())
    (hkeeps : worker.Keeps request plan.sourceFingerprint workspace manifest) :
    worker.call executor context request workspace =
      ⟨[], .ok { manifest.success with requestID := request.requestID }, workspace⟩ := by
  obtain ⟨operation, hcall⟩ := call_eq executor workspace
  have hload := loadWorkspace_eq_some.mpr ⟨manifest, hkeeps, rfl⟩
  rw [hcall, hplan, run, materialize, hbase, hload]
  simp [hconfirm]

theorem reused_of_keeps (hplan : worker.plan executor context request = .ok plan)
    (hbase : workspace.base) (hconfirm : plan.confirmStored = .ok ())
    (hkeeps : worker.Keeps request plan.sourceFingerprint workspace manifest) :
    worker.Reused executor request workspace manifest.success.artifacts := by
  intro later plan' id hlater hid
  obtain ⟨hprint, hstored⟩ := plan_later hplan hlater
  rw [← hstored] at hconfirm
  rw [← hprint] at hkeeps
  have hagain : worker.plan executor later { request with requestID := id } = .ok plan' := by
    rw [← hlater]
    cases executor with
    | tar => rfl
    | rar => rfl
    | directory => rfl
  rw [call_of_keeps hagain hbase hconfirm (hkeeps.again hid)]
  exact ⟨rfl, _, rfl, rfl⟩

/-- After a build, only what is kept is returned without a call. -/
theorem keeps_of_reused (hplan : worker.plan executor context request = .ok plan)
    (hbuild : plan.build.result = .ok (artifacts, tree))
    (hid : isOpaqueId (chars request.requestID))
    (hreused : worker.Reused executor request workspace artifacts) :
    ∃ manifest, worker.Keeps request plan.sourceFingerprint workspace manifest ∧
      manifest.success.artifacts = artifacts := by
  obtain ⟨hcalls, again, hok, hartifacts⟩ := hreused context plan request.requestID hplan hid
  obtain ⟨plan', hplan', -, -, hanswered⟩ := answered_of_call hok
  cases hplan.symm.trans hplan'
  generalize worker.call executor context { request with requestID := request.requestID } workspace
    = outcome at hcalls hanswered
  cases hanswered with
  | stored hload _ =>
    obtain ⟨manifest, hkeeps, rfl⟩ := loadWorkspace_eq_some.mp hload
    exact ⟨manifest, hkeeps, hartifacts⟩
  | built _ _ _ _ => exact absurd hcalls (busy_of_plan hplan _ _ hbuild).2

/-! ## What can be stored -/

/-- The identifier of the artifact for a file. -/
def identityOf (worker : Worker β ε) (path : Path) (content : β) : Text :=
  artifactIDOf worker.sum256 (join path) (sha256Text (worker.digest content))

/-- A file whose artifact passes the checks and comes back from JSON as it was. -/
structure StorableFile (worker : Worker β ε) (path : Path) (content : β) : Prop where
  size : 0 < worker.length content
  /-- With the components of the workspace there are at most 64. -/
  depth : path.length ≤ 61
  utf8 : ∀ component ∈ path, validUtf8 component = component
  evidence : ∀ evidence, worker.probe path content = .ok evidence →
    worker.codec.evidence evidence = evidence

/-- A source whose files can all be stored, with identifiers of their own. -/
structure Storable (worker : Worker β ε) (context : Context) (request : Request)
    (executor : Executor) : Prop where
  operation : executor = .directory → request.operation = .directory
  clear : worker.Clear context request executor
  file : ∀ path content, worker.Offers context request path content executor →
    worker.StorableFile path content
  identity : ∀ path content path' content', worker.Offers context request path content executor →
    worker.Offers context request path' content' executor →
    worker.identityOf path content = worker.identityOf path' content' → path = path'

theorem validComponents_workspaceComponents (hid : isOpaqueId (chars request.workspaceID)) :
    validComponents (workspaceComponents request) := by
  have hfixed : validComponents [bytes ".media-repair", bytes "workspaces"] := by decide +kernel
  exact validComponents_append hfixed (validComponents_of_isOpaqueId hid) (by simp)

theorem validUtf8_workspaceComponents (hid : isOpaqueId (chars request.workspaceID)) :
    (workspaceComponents request).map validUtf8 = workspaceComponents request := by
  simp only [workspaceComponents, List.map_cons, List.map_nil, bytes, validUtf8_utf8,
    validUtf8_of_isOpaqueId hid]

theorem validUtf8_sha256Text (digest : Digest) : validUtf8 (sha256Text digest) = sha256Text digest := by
  rw [sha256Text_eq_utf8, validUtf8_utf8]

theorem isSha256Id_sha256Text (digest : Digest) : isSha256Id (chars (sha256Text digest)) := by
  rw [sha256Text_eq_utf8, chars_utf8]
  exact isSha256Id_digest digest

theorem map_eq_self {α : Type} {f : α → α} {items : List α} :
    items.map f = items ↔ ∀ item ∈ items, f item = item := by
  nth_rewrite 2 [← List.map_id items]
  exact List.map_inj_left

section File

variable {path : Path} {content : β} {artifact : Artifact ε}

/-- Which artifacts pass the checks. -/
theorem complete_of_made (hid : isOpaqueId (chars request.workspaceID))
    (hmade : worker.Made (workspaceComponents request) path content artifact) :
    artifact.complete ↔ 0 < worker.length content ∧ path.length ≤ 61 := by
  obtain ⟨hsafe, evidence, -, rfl⟩ := hmade
  have hidentity : isOpaqueId (chars (artifactIDOf worker.sum256 (join path)
      (sha256Text (worker.digest content)))) := by
    obtain ⟨digest, hdigest⟩ := artifactIDOf_eq_utf8 worker.sum256 (join path)
      (sha256Text (worker.digest content))
    rw [hdigest, chars_utf8]
    exact isOpaqueId_digest (by decide) (by decide) digest
  have hname : join path ≠ [] := by
    intro hempty
    have hsplit := split_join hsafe
    rw [hempty] at hsplit
    have hcomponent := hsafe.plain [] (by rw [← hsplit]; decide)
    exact hcomponent.ne_nil rfl
  have hcomponents : validComponents (workspaceComponents request ++ path) ↔
      path.length ≤ 61 := by
    constructor
    · intro hvalid
      simp only [validComponents, decide_eq_true_eq, List.length_append] at hvalid
      have hlength : (workspaceComponents request).length = 3 := rfl
      omega
    · intro hlength
      apply validComponents_append (validComponents_workspaceComponents hid)
      · exact validComponents_of_safePath hsafe (by omega)
      · change 3 + path.length ≤ 64
        omega
  simp only [Artifact.complete, artifactOf, split_join hsafe, hidentity, isSha256Id_sha256Text,
    Bool.and_eq_true, decide_eq_true_eq, hcomponents, ne_eq, hname, not_false_eq_true,
    true_and, and_true, Int.natCast_pos]

/-- Which artifacts come back from JSON as they were. -/
theorem readBack_of_made (hid : isOpaqueId (chars request.workspaceID))
    (hmade : worker.Made (workspaceComponents request) path content artifact) :
    artifact.readBack worker.codec.evidence = artifact ↔
      (∀ component ∈ path, validUtf8 component = component) ∧
        ∀ evidence, worker.probe path content = .ok evidence →
          worker.codec.evidence evidence = evidence := by
  obtain ⟨hsafe, evidence, hevidence, rfl⟩ := hmade
  constructor
  · intro hsame
    have hcomponents := congrArg Artifact.pathComponents hsame
    have hread := congrArg Artifact.evidence hsame
    simp only [Artifact.readBack, artifactOf, split_join hsafe, List.map_append,
      validUtf8_workspaceComponents hid, List.append_cancel_left_eq] at hcomponents
    refine ⟨map_eq_self.mp hcomponents, fun other hother => ?_⟩
    cases hevidence.symm.trans hother
    exact hread
  · rintro ⟨hutf8, hread⟩
    obtain ⟨digest, hdigest⟩ := artifactIDOf_eq_utf8 worker.sum256 (join path)
      (sha256Text (worker.digest content))
    have hpath : path.map validUtf8 = path := map_eq_self.mpr hutf8
    simp only [Artifact.readBack, artifactOf, split_join hsafe, List.map_append, hpath,
      validUtf8_workspaceComponents hid, validUtf8_join hutf8, validUtf8_sha256Text,
      hread evidence hevidence, hdigest, validUtf8_utf8]

end File

/-! ## Responses that are stored -/

theorem sourceFingerprint_of_plan (hplan : worker.plan executor context request = .ok plan) :
    ∃ digest, plan.sourceFingerprint = sha256Text digest := by
  cases planned_of_plan hplan with
  | tar => exact ⟨_, rfl⟩
  | rar => exact ⟨_, rfl⟩
  | directory hsource =>
    simp only [scanDirectory, sourceOf, bind_eq_ok, ite_error_eq_ok] at hsource
    obtain ⟨scan, -, -, cue, -, ⟨⟩⟩ := hsource
    exact ⟨_, rfl⟩

theorem operation_of_plan (hplan : worker.plan executor context request = .ok plan) :
    plan.operation = request.operation ↔
      (executor = .directory → request.operation = .directory) := by
  cases planned_of_plan hplan with
  | tar => simp [archivePlan]
  | rar => simp [archivePlan]
  | directory => simp [eq_comm]

theorem confirmStored_of_plan (hplan : worker.plan executor context request = .ok plan)
    (hconfirm : plan.confirm = .ok ()) : plan.confirmStored = .ok () := by
  cases planned_of_plan hplan with
  | tar => exact hconfirm
  | rar => exact hconfirm
  | directory => rfl

/-- The manifest of a response, read back. -/
def keptManifest (worker : Worker β ε) (request : Request) (plan : Plan β ε)
    (artifacts : List (Artifact ε)) : Manifest ε :=
  Manifest.readBack worker.codec.evidence
    ⟨manifestVersion, request.operation, plan.sourceFingerprint, successOf request plan artifacts⟩

theorem keeps_iff_fits (before : Workspace β)
    (hwrite : worker.writeManifest tree request.operation plan.sourceFingerprint
      (successOf request plan artifacts) = some completed) :
    worker.Keeps request plan.sourceFingerprint
        { before with completed := some (.directory completed) } manifest ↔
      manifest = worker.keptManifest request plan artifacts ∧
        worker.Fits request plan.sourceFingerprint completed manifest := by
  have hmanifest := FileTree.find_write hwrite [workspaceManifest]
  rw [if_pos rfl] at hmanifest
  constructor
  · rintro ⟨found, data, hfound, hdata, hread, hfits⟩
    obtain rfl : completed = found := by
      cases hfound
      rfl
    rw [hmanifest] at hdata
    cases hdata
    rw [worker.codec.unmarshal_marshal] at hread
    exact ⟨(Option.some.inj hread).symm, hfits⟩
  · rintro ⟨rfl, hfits⟩
    exact ⟨completed, _, rfl, hmanifest, worker.codec.unmarshal_marshal _, hfits⟩

section Built

variable (hvalid : validateRequest request = .ok ())
  (hplan : worker.plan executor context request = .ok plan)
  (hbuild : plan.build.result = .ok (artifacts, tree))
  (hwrite : worker.writeManifest tree request.operation plan.sourceFingerprint
    (successOf request plan artifacts) = some completed)
  (hstorable : worker.Storable context request executor)

include hvalid hplan hbuild

include hwrite in
/-- What fits and is the same when it is read back was made from files that can be
stored. -/
theorem storable_of_fits (hfits : worker.Fits request plan.sourceFingerprint completed
      (worker.keptManifest request plan artifacts))
    (hsame : (worker.keptManifest request plan artifacts).success.artifacts = artifacts) :
    worker.Storable context request executor := by
  have hid := (isOpaqueId_of_validateRequest hvalid).2.2
  have hbuilt := built_of_plan hplan hbuild
  have hread : ∀ artifact ∈ artifacts, artifact.readBack worker.codec.evidence = artifact :=
    map_eq_self.mp hsame
  have hstored := hfits.stored
  have hcomplete := hfits.accepted.complete
  have hnodup := hfits.accepted.nodup
  dsimp only at hcomplete hnodup
  rw [hsame] at hstored hcomplete hnodup
  refine ⟨(operation_of_plan hplan).mp hfits.operation, ?_, fun path content hoffers => ?_, ?_⟩
  · refine clear_of_present hplan hbuild hwrite fun artifact hmem path content hmade => ?_
    obtain ⟨path', content', hsafe', hname, -, hfind, -⟩ := stored_iff.mp (hstored artifact hmem)
    obtain ⟨hsafe, evidence, -, rfl⟩ := hmade
    obtain rfl : path = path' := by
      rw [← split_join hsafe, ← split_join hsafe']
      exact congrArg split hname
    rw [hfind]
    exact Option.some_ne_none _
  · obtain ⟨artifact, hmem, hmade⟩ := hbuilt.covers path content hoffers
    obtain ⟨hsize, hdepth⟩ := (complete_of_made hid hmade).mp (hcomplete artifact hmem)
    obtain ⟨hutf8, hevidence⟩ := (readBack_of_made hid hmade).mp (hread artifact hmem)
    exact ⟨hsize, hdepth, hutf8, hevidence⟩
  · intro path content path' content' hoffers hoffers' hidentity
    obtain ⟨artifact, hmem, hsafe, evidence, -, rfl⟩ := hbuilt.covers path content hoffers
    obtain ⟨artifact', hmem', hsafe', evidence', -, rfl⟩ := hbuilt.covers path' content' hoffers'
    have hartifact := List.inj_on_of_nodup_map hnodup hmem hmem' hidentity
    rw [← split_join hsafe, ← split_join hsafe']
    exact congrArg (fun artifact => split artifact.relativePath) hartifact

include hstorable

/-- Files that can be stored are stored with a response that is accepted. -/
theorem accepted_of_storable : Accepted (successOf request plan artifacts) := by
  obtain ⟨hrequest, hroot, hworkspace⟩ := isOpaqueId_of_validateRequest hvalid
  obtain ⟨digest, hdigest⟩ := sourceFingerprint_of_plan hplan
  have hfiled := (built_of_plan hplan hbuild).filed hstorable.clear
  refine ⟨rfl, hrequest, hroot, ?_, validComponents_workspaceComponents hworkspace,
    (busy_of_plan hplan _ _ hbuild).1, fun artifact hmem => ?_, ?_⟩
  · change isSha256Id (chars plan.sourceFingerprint)
    rw [hdigest]
    exact isSha256Id_sha256Text digest
  · obtain ⟨path, content, hoffers, hmade, -⟩ := hfiled.made artifact hmem
    have hfile := hstorable.file path content hoffers
    exact (complete_of_made hworkspace hmade).mpr ⟨hfile.size, hfile.depth⟩
  · -- The identifiers tell the paths apart, and the paths the artifacts.
    refine List.Nodup.map_on (fun artifact hmem other hother hidentity => ?_)
      (List.Nodup.of_map _ hfiled.nodup)
    apply List.inj_on_of_nodup_map hfiled.nodup hmem hother
    obtain ⟨path, content, hoffers, ⟨-, evidence, -, rfl⟩, -⟩ := hfiled.made artifact hmem
    obtain ⟨path', content', hoffers', ⟨-, evidence', -, rfl⟩, -⟩ := hfiled.made other hother
    have hpath := hstorable.identity path content path' content' hoffers hoffers' hidentity
    exact congrArg join hpath

theorem keptManifest_of_storable :
    worker.keptManifest request plan artifacts =
      ⟨manifestVersion, request.operation, plan.sourceFingerprint,
        successOf request plan artifacts⟩ := by
  obtain ⟨hrequest, hroot, hworkspace⟩ := isOpaqueId_of_validateRequest hvalid
  obtain ⟨digest, hdigest⟩ := sourceFingerprint_of_plan hplan
  have hfiled := (built_of_plan hplan hbuild).filed hstorable.clear
  have hartifacts : artifacts.map (Artifact.readBack worker.codec.evidence) = artifacts := by
    refine map_eq_self.mpr fun artifact hmem => ?_
    obtain ⟨path, content, hoffers, hmade, -⟩ := hfiled.made artifact hmem
    have hfile := hstorable.file path content hoffers
    exact (readBack_of_made hworkspace hmade).mpr ⟨hfile.utf8, hfile.evidence⟩
  have hversion : validUtf8 manifestVersion = manifestVersion := validUtf8_utf8 _
  have hschema : validUtf8 schemaVersion = schemaVersion := validUtf8_utf8 _
  simp only [keptManifest, Manifest.readBack, Success.readBack, successOf, hversion, hschema,
    hdigest, validUtf8_sha256Text, validUtf8_of_isOpaqueId hrequest, validUtf8_of_isOpaqueId hroot,
    validUtf8_workspaceComponents hworkspace, hartifacts]

include hwrite in
theorem fits_of_storable :
    worker.Fits request plan.sourceFingerprint completed
      (worker.keptManifest request plan artifacts) := by
  rw [keptManifest_of_storable hvalid hplan hbuild hstorable]
  refine ⟨rfl, rfl, rfl, (operation_of_plan hplan).mpr hstorable.operation, rfl, rfl, rfl,
    fun artifact hmem => ?_, accepted_of_storable hvalid hplan hbuild hstorable⟩
  have hfiled := (built_of_plan hplan hbuild).filed hstorable.clear
  obtain ⟨path, content, hoffers, ⟨hsafe, evidence, -, rfl⟩, hfind⟩ := hfiled.made artifact hmem
  refine stored_iff.mpr ⟨path, content, hsafe, rfl, ?_, ?_, rfl⟩
  · rw [artifactOf, split_join hsafe]
  · rw [find_of_writeManifest hwrite hoffers, hfind]

end Built

/-- A matching workspace is already there. -/
def Kept (worker : Worker β ε) (executor : Executor) (context : Context) (request : Request)
    (workspace : Workspace β) : Prop :=
  ∃ plan manifest, worker.plan executor context request = .ok plan ∧
    worker.Keeps request plan.sourceFingerprint workspace manifest

/-- A success is encoded, and the request is answered again from the manifest, exactly
if a matching workspace was there already or all that the source offers can be
stored. -/
theorem delivered_and_reused_iff {before : Workspace β}
    (hvalid : validateRequest request = .ok ())
    (hok : (worker.call executor context request before).response = .ok success) :
    ((∃ data, encodeResponse worker.codec (.ok success) = .ok data) ∧
        worker.Reused executor request (worker.call executor context request before).workspace
          success.artifacts) ↔
      worker.Kept executor context request before ∨
        worker.Storable context request executor := by
  obtain ⟨hrequest, -, -⟩ := isOpaqueId_of_validateRequest hvalid
  obtain ⟨plan, hplan, hbase, -, hanswered⟩ := answered_of_call hok
  rw [encodeResponse_eq_ok]
  generalize worker.call executor context request before = outcome at hanswered ⊢
  cases hanswered with
  | stored hload hconfirm =>
    obtain ⟨manifest, hkeeps, rfl⟩ := loadWorkspace_eq_some.mp hload
    have hreused := reused_of_keeps hplan hbase hconfirm hkeeps
    obtain ⟨tree, data, -, -, -, hfits⟩ := id hkeeps
    exact ⟨fun _ => .inl ⟨plan, manifest, hplan, hkeeps⟩, fun _ => ⟨hfits.accepted, hreused⟩⟩
  | @built artifacts tree completed hload hbuild hconfirm hwrite =>
    constructor
    · rintro ⟨-, hreused⟩
      obtain ⟨manifest, hkeeps, hsame⟩ := keeps_of_reused hplan hbuild hrequest hreused
      obtain ⟨rfl, hfits⟩ := (keeps_iff_fits before hwrite).mp hkeeps
      exact .inr (storable_of_fits hvalid hplan hbuild hwrite hfits hsame)
    · rintro (⟨plan', manifest, hplan', hkeeps⟩ | hstorable)
      · -- Nothing was kept, or nothing would have been built.
        cases hplan.symm.trans hplan'
        exact absurd (loadWorkspace_eq_some.mpr ⟨manifest, hkeeps, rfl⟩) (hload _)
      · have hfits := fits_of_storable hvalid hplan hbuild hwrite hstorable
        have hkeeps := (keeps_iff_fits before hwrite).mpr ⟨rfl, hfits⟩
        have hconfirmed := confirmStored_of_plan hplan hconfirm
        have hreused := reused_of_keeps hplan (by exact hbase) hconfirmed hkeeps
        rw [keptManifest_of_storable hvalid hplan hbuild hstorable] at hreused
        exact ⟨accepted_of_storable hvalid hplan hbuild hstorable, hreused⟩

theorem validateRequest_sampleRequest : validateRequest (sampleRequest .tar) = .ok () := by
  rfl

theorem offers_song {path : Path} {content : SampleContent}
    (hoffers : songWorker.Offers sampleContext (sampleRequest .tar) path content .tar) :
    path = split (bytes "a/song.flac") ∧ content = .data [0] := by
  obtain ⟨extensions, archive, -, -, entry, hentry, -, -, hpath, hcontent⟩ := hoffers
  obtain rfl := List.mem_singleton.mp hentry
  exact ⟨hpath, hcontent⟩

/-- The song from the tar archive is answered again from the manifest. -/
theorem song_from_tar_reused : ∃ success, (songOutcome .tar .tar).response = .ok success ∧
    (∃ data, encodeResponse songWorker.codec (.ok success) = .ok data) ∧
    songWorker.Reused .tar (sampleRequest .tar) (songOutcome .tar .tar).workspace
      success.artifacts := by
  obtain ⟨success, hok⟩ := songOutcome_tar
  have hstorable : songWorker.Storable sampleContext (sampleRequest .tar) .tar := by
    refine ⟨nofun, nofun, fun path content hoffers => ?_,
      fun path content path' content' hoffers hoffers' _ => ?_⟩
    · obtain ⟨rfl, rfl⟩ := offers_song hoffers
      exact ⟨by decide, by decide +kernel, by decide +kernel, fun _ _ => rfl⟩
    · rw [(offers_song hoffers).1, (offers_song hoffers').1]
  exact ⟨success, hok,
    (delivered_and_reused_iff validateRequest_sampleRequest hok).mpr (.inr hstorable)⟩

/-! ### An empty member -/

/-- An empty song in a tar archive. -/
def emptySongWorker : Worker SampleContent Unit :=
  sampleWorker ⟨[⟨bytes "song.flac", .regular, 0, .data []⟩], true⟩
    { lsar := fun _ => none
      unar := fun _ _ => none }

def emptySongOutcome : Outcome SampleContent Unit :=
  emptySongWorker.call .tar sampleContext (sampleRequest .tar) emptyWorkspace

/-- A valid request for the empty song succeeds, and the response has no encoding. -/
theorem empty_song_not_delivered : validateRequest (sampleRequest .tar) = .ok () ∧
    ∃ success, emptySongOutcome.response = .ok success ∧
      ¬ ∃ data, encodeResponse emptySongWorker.codec (.ok success) = .ok data := by
  have hsucceeds : succeeds emptySongOutcome.response := by decide +kernel
  obtain ⟨success, hok⟩ := exists_ok_of_succeeds hsucceeds
  refine ⟨validateRequest_sampleRequest, success, hok, ?_⟩
  rintro ⟨data, hencode⟩
  obtain ⟨⟨⟩, hvalid, -⟩ := bind_eq_ok.mp hencode
  have hrefused : (validateResponse emptySongOutcome.response).isOk = false := by decide +kernel
  rw [hok, hvalid] at hrefused
  cases hrefused

end Worker

end NixConfig.MediaRepair.Materialize
