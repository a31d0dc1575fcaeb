/-
# Artifacts are files of the workspace

A response that was built lists artifacts, and a caller takes each for a file of
the completed workspace with the given size and digest. For tar archives and
directories it always is. For RAR archives it is not if the archive has a media
file below `.rar-extract`: its copy falls into the quarantine, which is removed
before the workspace is completed. Without such members it is, and with them it
never is.
-/

import NixConfig.MediaRepair.Materialize.Directories

namespace NixConfig.MediaRepair.Materialize

open Data Semantics
open Contracts (Digest sha256Text)

variable {α β ε : Type}

namespace Worker

variable {worker : Worker β ε} {context : Context} {request : Request}

/-! ## How an executor answers -/

/-- A request is answered with a stored response, or with one for a new workspace. -/
inductive Answered (worker : Worker β ε) (request : Request) (plan : Plan β ε)
    (workspace : Workspace β) : Success ε → Outcome β ε → Prop
  | stored {success : Success ε}
      (hload : worker.loadWorkspace request plan.sourceFingerprint workspace = .ok (some success))
      (hconfirm : plan.confirmStored = .ok ()) :
      Answered worker request plan workspace success ⟨[], .ok success, workspace⟩
  | built {artifacts : List (Artifact ε)} {tree completed : FileTree Text β}
      (hload : ∀ success,
        worker.loadWorkspace request plan.sourceFingerprint workspace ≠ .ok (some success))
      (hbuild : plan.build.result = .ok (artifacts, tree)) (hconfirm : plan.confirm = .ok ())
      (hwrite : worker.writeManifest tree request.operation plan.sourceFingerprint
        (successOf request plan artifacts) = some completed) :
      Answered worker request plan workspace (successOf request plan artifacts)
        ⟨plan.build.calls, .ok (successOf request plan artifacts),
          { workspace with completed := some (.directory completed) }⟩

variable {operation : Operation} {reason : Reason} {workspace : Workspace β}
  {archive : SourceFile β}

theorem failed_ne_ok {success : Success ε} :
    (failed request operation reason : Response ε) ≠ .ok success := by
  intro hsame
  have hsuccess := congrArg Response.success hsame
  cases hsuccess

theorem ok_inj {success other : Success ε} (hsame : Response.ok success = Response.ok other) :
    success = other := by
  have hsuccess := congrArg Response.success hsame
  exact Option.some.inj hsuccess

theorem orReason_eq_ok {value : Option α} {a : α} :
    orReason reason value = .ok a ↔ value = some a := by
  cases value with
  | none => simp [orReason]
  | some b => simp [orReason]

theorem answered_of_rebuild {plan : Plan β ε} {before : Workspace β} {success : Success ε}
    (hload : ∀ success,
      worker.loadWorkspace request plan.sourceFingerprint before ≠ .ok (some success))
    (hbefore : workspace = before ∨ workspace = { before with completed := none })
    (hok : (worker.rebuild request plan workspace).response = .ok success) :
    Answered worker request plan before success (worker.rebuild request plan workspace) := by
  have hcompleted (tree : FileTree Text β) :
      { workspace with completed := some (.directory tree) } =
        { before with completed := some (.directory tree) } := by
    rcases hbefore with rfl | rfl <;> rfl
  unfold rebuild at hok ⊢
  cases hprepared : prepareWorkspace workspace with
  | false =>
    simp only [hprepared, Bool.not_false, if_true] at hok
    exact absurd hok failed_ne_ok
  | true =>
    simp only [hprepared, Bool.not_true, Bool.false_eq_true, if_false] at hok ⊢
    cases hbuild : plan.build.result with
    | error fault =>
      simp only [hbuild] at hok
      exact absurd hok failed_ne_ok
    | ok built =>
      simp only [hbuild] at hok ⊢
      cases hcomplete : worker.complete request plan built.1 built.2 with
      | error reason =>
        simp only [hcomplete] at hok
        exact absurd hok failed_ne_ok
      | ok completed =>
        simp only [hcomplete, hcompleted] at hok ⊢
        obtain rfl := ok_inj hok
        obtain ⟨⟨⟩, hconfirm, hwrite⟩ := bind_eq_ok.mp hcomplete
        rw [orReason_eq_ok] at hwrite
        exact .built hload hbuild hconfirm hwrite

/-- Everything an executor can do to answer a request. -/
theorem answered_of_materialize {plan : Plan β ε} {success : Success ε}
    (hok : (worker.materialize request plan workspace).response = .ok success) :
    workspace.base ∧
      Answered worker request plan workspace success
        (worker.materialize request plan workspace) := by
  unfold materialize at hok ⊢
  cases hbase : workspace.base with
  | false =>
    simp only [hbase, Bool.not_false, if_true] at hok
    exact absurd hok failed_ne_ok
  | true =>
    simp only [hbase, Bool.not_true, Bool.false_eq_true, if_false] at hok ⊢
    refine ⟨trivial, ?_⟩
    -- the branches of `materialize`: a workspace that cannot be used is cleared and built again
    cases hload : worker.loadWorkspace request plan.sourceFingerprint workspace with
    | error =>
      simp only [hload] at hok ⊢
      cases hclear : clearWorkspace workspace with
      | none =>
        simp only [hclear] at hok
        exact absurd hok failed_ne_ok
      | some cleared =>
        simp only [hclear] at hok ⊢
        refine answered_of_rebuild (by simp [hload]) ?_ hok
        unfold clearWorkspace at hclear
        split at hclear
        · cases hclear
        exact .inr (Option.some.inj hclear).symm
    | ok loaded =>
      cases loaded with
      | none =>
        simp only [hload] at hok ⊢
        exact answered_of_rebuild (by simp [hload]) (.inl rfl) hok
      | some stored =>
        simp only [hload] at hok ⊢
        cases hconfirm : plan.confirmStored with
        | error reason =>
          simp only [hconfirm] at hok
          exact absurd hok failed_ne_ok
        | ok =>
          simp only [hconfirm] at hok ⊢
          obtain rfl := ok_inj hok
          exact .stored hload hconfirm

theorem call_eq (executor : Executor) (workspace : Workspace β) :
    ∃ operation, worker.call executor context request workspace =
      worker.run request operation (worker.plan executor context request) workspace := by
  cases executor with
  | tar => exact ⟨_, rfl⟩
  | rar => exact ⟨_, rfl⟩
  | directory => exact ⟨_, rfl⟩

/-- Every executor answers that way. -/
theorem answered_of_call {executor : Executor} {success : Success ε}
    (hok : (worker.call executor context request workspace).response = .ok success) :
    ∃ plan, worker.plan executor context request = .ok plan ∧ workspace.base ∧
      worker.call executor context request workspace = worker.materialize request plan workspace ∧
      Answered worker request plan workspace success
        (worker.call executor context request workspace) := by
  obtain ⟨operation, hcall⟩ := call_eq executor workspace
  rw [hcall] at hok ⊢
  cases hplan : worker.plan executor context request with
  | error reason =>
    rw [hplan] at hok
    exact absurd hok failed_ne_ok
  | ok plan =>
    rw [hplan] at hok
    obtain ⟨hbase, hanswered⟩ := answered_of_materialize hok
    exact ⟨plan, rfl, hbase, rfl, hanswered⟩

/-- What an executor brings into the frame. -/
inductive Planned (worker : Worker β ε) (context : Context) (request : Request) :
    Executor → Plan β ε → Prop
  | tar {extensions : List Text} {archive : SourceFile β}
      (hextensions : tarExtensions request.operation = some extensions)
      (harchive : worker.openArchive request = .ok archive) :
      Planned worker context request .tar (worker.archivePlan request archive
        (worker.extractAndProbe context (worker.readTar archive.content)
          (workspaceComponents request) extensions) reasonForError)
  | rar {tools : RarTools β} {extensions : List Text} {archive : SourceFile β}
      (htools : worker.rar = some tools)
      (hextensions : rarExtensions request.operation = some extensions)
      (harchive : worker.openArchive request = .ok archive) :
      Planned worker context request .rar (worker.archivePlan request archive
        (worker.buildRAR context tools archive.content (workspaceComponents request) extensions)
        reasonForRARError)
  | directory {source : DirectorySource}
      (hsource : worker.scanDirectory context.scan context.cue request.rootID
        request.sourceComponents = .ok source) :
      Planned worker context request .directory {
        operation := .directory
        sourceFingerprint := source.fingerprint
        build := worker.copyAndProbeDirectory context request.rootID (workspaceComponents request)
          source
        buildReason := reasonForDirectoryError
        confirmStored := .ok ()
        confirm := worker.confirmSource context request source }

theorem planned_of_plan {executor : Executor} {plan : Plan β ε}
    (hplan : worker.plan executor context request = .ok plan) :
    Planned worker context request executor plan := by
  cases executor with
  | tar =>
    simp only [Worker.plan, tarPlan, bind_eq_ok, orReason_eq_ok] at hplan
    obtain ⟨extensions, hextensions, ⟨⟩, -, archive, harchive, ⟨⟩⟩ := hplan
    exact .tar hextensions harchive
  | rar =>
    simp only [Worker.plan, rarPlan, bind_eq_ok, orReason_eq_ok] at hplan
    obtain ⟨tools, htools, extensions, hextensions, ⟨⟩, -, archive, harchive, ⟨⟩⟩ := hplan
    exact .rar htools hextensions harchive
  | directory =>
    simp only [Worker.plan, directoryPlan, bind_eq_ok, mapError_eq_ok] at hplan
    obtain ⟨⟨⟩, -, source, hsource, _, -, ⟨⟩⟩ := hplan
    exact .directory hsource

/-! ## What the source offers -/

/-- The files that a request offers to an executor. -/
def Offers (worker : Worker β ε) (context : Context) (request : Request) (path : Path)
    (content : β) : Executor → Prop
  | .tar => ∃ extensions archive, tarExtensions request.operation = some extensions ∧
      worker.openArchive request = .ok archive ∧
      worker.tarOffers extensions (worker.readTar archive.content).entries path content
  | .rar => ∃ extensions tools archive listing, rarExtensions request.operation = some extensions ∧
      worker.rar = some tools ∧ worker.openArchive request = .ok archive ∧
      tools.lsar archive.content = some listing ∧
      worker.rarOffers tools archive.content extensions listing.contents path content
  | .directory => ∃ source, worker.scanDirectory context.scan context.cue request.rootID
        request.sourceComponents = .ok source ∧
      match source.cue with
      | none => worker.copyOffers request.rootID request.sourceComponents path content
      | some plan => ∃ tools input, worker.cue = some tools ∧
          worker.files.openFile request.rootID plan.image.components
            (worker.strictFingerprint plan.image.snapshot) = .ok input ∧
          Track tools input.content 0 plan.starts path content

/-- Nothing that a RAR archive offers lies below the name of the quarantine. -/
def Clear (worker : Worker β ε) (context : Context) (request : Request) (executor : Executor) :
    Prop :=
  executor = .rar → ∀ path content, worker.Offers context request path content .rar →
    path.head? ≠ some quarantine

/-- What an executor builds from what is offered. -/
structure Built (worker : Worker β ε) (context : Context) (request : Request) (executor : Executor)
    (tree : FileTree Text β) (artifacts : List (Artifact ε)) : Prop where
  covers : worker.Covers (workspaceComponents request)
    (worker.Offers context request · · executor) artifacts
  filed : worker.Clear context request executor →
    worker.Filed (workspaceComponents request) (worker.Offers context request · · executor) tree
      artifacts
  /-- The quarantine is gone. -/
  removed : executor = .rar → ∀ path, tree.find (quarantine :: path) = none

variable {extensions : List Text} {content : β} {path : Path}

theorem built_of_tar {artifacts : List (Artifact ε)} {tree : FileTree Text β}
    (hextensions : tarExtensions request.operation = some extensions)
    (harchive : worker.openArchive request = .ok archive)
    (hbuild : (worker.extractAndProbe context (worker.readTar archive.content)
      (workspaceComponents request) extensions).result = .ok (artifacts, tree)) :
    Built worker context request .tar tree artifacts := by
  obtain ⟨hfiled, hcovers⟩ := built_of_extractAndProbe hbuild
  have hsame (path : Path) (content : β) : worker.Offers context request path content .tar ↔
      worker.tarOffers extensions (worker.readTar archive.content).entries path content := by
    simp [Offers, hextensions, harchive]
  refine ⟨?_, fun _ => ?_, fun hrar => by cases hrar⟩
  · simpa only [Covers, hsame] using hcovers
  · simpa only [hsame] using hfiled

theorem built_of_rar {tools : RarTools β} {artifacts : List (Artifact ε)} {tree : FileTree Text β}
    (htools : worker.rar = some tools)
    (hextensions : rarExtensions request.operation = some extensions)
    (harchive : worker.openArchive request = .ok archive)
    (hbuild : (worker.buildRAR context tools archive.content (workspaceComponents request)
      extensions).result = .ok (artifacts, tree)) :
    Built worker context request .rar tree artifacts := by
  obtain ⟨listing, hlisting, hcovers, hremoved, hfiled⟩ := built_of_buildRAR hbuild
  have hsame (path : Path) (content : β) : worker.Offers context request path content .rar ↔
      worker.rarOffers tools archive.content extensions listing.contents path content := by
    simp [Offers, hextensions, htools, harchive, hlisting]
  refine ⟨?_, fun hclear => ?_, fun _ => hremoved⟩
  · simpa only [Covers, hsame] using hcovers
  · have hclean := hclear rfl
    simp only [hsame] at hclean
    simpa only [hsame] using hfiled hclean

theorem built_of_directory {source : DirectorySource} {artifacts : List (Artifact ε)}
    {tree : FileTree Text β}
    (hsource : worker.scanDirectory context.scan context.cue request.rootID
      request.sourceComponents = .ok source)
    (hbuild : (worker.copyAndProbeDirectory context request.rootID (workspaceComponents request)
      source).result = .ok (artifacts, tree)) :
    Built worker context request .directory tree artifacts := by
  -- The source is scanned once, so what it offers depends on its one cue plan.
  obtain ⟨offered, hoffered, hfiled, hcovers⟩ : ∃ offered : Path → β → Prop,
      (∀ path content, worker.Offers context request path content .directory ↔
        offered path content) ∧
      worker.Filed (workspaceComponents request) offered tree artifacts ∧
      worker.Covers (workspaceComponents request) offered artifacts := by
    have hscanned (path : Path) (content : β) :
        worker.Offers context request path content .directory ↔
          match source.cue with
          | none => worker.copyOffers request.rootID request.sourceComponents path content
          | some plan => ∃ tools input, worker.cue = some tools ∧
              worker.files.openFile request.rootID plan.image.components
                (worker.strictFingerprint plan.image.snapshot) = .ok input ∧
              Track tools input.content 0 plan.starts path content := by
      refine ⟨?_, fun hoffers => ⟨source, hsource, hoffers⟩⟩
      rintro ⟨source', hsource', hoffers⟩
      cases hsource.symm.trans hsource'
      exact hoffers
    unfold copyAndProbeDirectory at hbuild
    cases hcue : source.cue with
    | none =>
      simp only [hcue] at hscanned hbuild
      exact ⟨_, hscanned, built_of_copies (finds_of_scanDirectory hsource).1 hbuild⟩
    | some plan =>
      simp only [hcue] at hscanned hbuild
      obtain ⟨tools, input, htools, hinput, hfiled, hcovers⟩ :=
        built_of_splitAndProbeDirectory hbuild
      refine ⟨_, fun path content => (hscanned path content).trans ⟨?_, ?_⟩, hfiled, hcovers⟩
      · rintro ⟨tools', input', htools', hinput', htrack⟩
        cases htools.symm.trans htools'
        cases hinput.symm.trans hinput'
        exact htrack
      · intro htrack
        exact ⟨tools, input, htools, hinput, htrack⟩
  refine ⟨?_, fun _ => ?_, fun hrar => by cases hrar⟩
  · simpa only [Covers, hoffered] using hcovers
  · simpa only [hoffered] using hfiled

theorem built_of_plan {executor : Executor} {plan : Plan β ε} {artifacts : List (Artifact ε)}
    {tree : FileTree Text β} (hplan : worker.plan executor context request = .ok plan)
    (hbuild : plan.build.result = .ok (artifacts, tree)) :
    Built worker context request executor tree artifacts := by
  cases planned_of_plan hplan with
  | tar hextensions harchive => exact built_of_tar hextensions harchive hbuild
  | rar htools hextensions harchive => exact built_of_rar htools hextensions harchive hbuild
  | directory hsource => exact built_of_directory hsource hbuild

/-! ## The manifest -/

theorem toLower_of_ascii {cs : List Char} (hascii : ∀ c ∈ cs, c.toNat < 0x80)
    (hlower : cs.map Char.toLower = cs) : toLower worker.unicode (utf8 cs) = utf8 cs := by
  rw [toLower, chars_utf8]
  conv_rhs => rw [← hlower]
  rw [List.map_congr_left fun c hmem => worker.unicode.lower_ascii c (hascii c hmem)]

/-- The manifest is no media file. -/
theorem not_hasExtension_workspaceManifest
    (hextensions : extensions = audioExtensions ∨ extensions = videoExtensions) :
    ¬ worker.hasExtension extensions workspaceManifest := by
  have hext : pathExt workspaceManifest = utf8 ".json".toList := by decide +kernel
  have hlower : toLower worker.unicode (pathExt workspaceManifest) = utf8 ".json".toList := by
    rw [hext]
    exact toLower_of_ascii (by decide) (by decide)
  rw [hasExtension, hlower, decide_eq_true_eq]
  rcases hextensions with rfl | rfl
  · decide +kernel
  · decide +kernel

theorem extensions_of_archive (hextensions : tarExtensions operation = some extensions ∨
      rarExtensions operation = some extensions) :
    extensions = audioExtensions ∨ extensions = videoExtensions := by
  cases operation <;> simp [tarExtensions, rarExtensions, eq_comm] at hextensions <;>
    simp [hextensions]

theorem exists_trackName {tools : CueTools β} {image : β} {index : Nat} {starts : List Nat}
    (htrack : Track tools image index starts path content) :
    ∃ index, path = [trackName index] := by
  induction htrack with
  | first _ => exact ⟨_, rfl⟩
  | later _ ih => exact ih

/-- What is offered does not lie where the manifest is written. -/
theorem ne_workspaceManifest {executor : Executor}
    (hoffers : worker.Offers context request path content executor) :
    path ≠ [workspaceManifest] := by
  rintro rfl
  have hjoin : join [workspaceManifest] = workspaceManifest := List.intercalate_singleton
  cases executor with
  | tar =>
    obtain ⟨extensions, archive, hextensions, -, entry, -, -, hmedia, hpath, -⟩ := hoffers
    have hname : entry.name = workspaceManifest := by
      rw [← join_split entry.name, ← hpath, hjoin]
    rw [hname] at hmedia
    exact not_hasExtension_workspaceManifest (extensions_of_archive (.inl hextensions)) hmedia
  | rar =>
    obtain ⟨extensions, tools, archive, listing, hextensions, -, -, -, -, hmedia⟩ := hoffers
    rw [hjoin] at hmedia
    exact not_hasExtension_workspaceManifest (extensions_of_archive (.inr hextensions)) hmedia
  | directory =>
    obtain ⟨source, -, hoffers⟩ := hoffers
    split at hoffers
    · obtain ⟨stat, snapshot, -, ⟨-, name, hlast, hmedia⟩, -⟩ := hoffers
      rw [List.getLast?_singleton] at hlast
      rw [← Option.some.inj hlast] at hmedia
      exact not_hasExtension_workspaceManifest (.inl rfl) hmedia
    · obtain ⟨tools, input, -, -, htrack⟩ := hoffers
      obtain ⟨index, hpath⟩ := exists_trackName htrack
      have hlast := congrArg List.getLast? (List.cons.inj hpath).1
      rw [trackName, List.getLast?_append_of_ne_nil _ (by decide)] at hlast
      revert hlast
      decide +kernel

/-! ## Real artifacts -/

/-- A file of a workspace, where the artifact says, of its size and with its
digest. -/
def RealArtifact (worker : Worker β ε) (workspace : Path) (tree : FileTree Text β)
    (artifact : Artifact ε) : Prop :=
  ∃ path content, SafePath path ∧ artifact.pathComponents = workspace ++ path ∧
    tree.find path = some (.file content) ∧ artifact.sizeBytes = worker.length content ∧
    artifact.fingerprint = sha256Text (worker.digest content)

/-- The artifacts are files of the completed workspace, each its own. -/
def Real (worker : Worker β ε) (request : Request) (workspace : Workspace β)
    (artifacts : List (Artifact ε)) : Prop :=
  ∃ tree, workspace.completed = some (.directory tree) ∧
    (∀ artifact ∈ artifacts, worker.RealArtifact (workspaceComponents request) tree artifact) ∧
    (artifacts.map Artifact.pathComponents).Nodup

theorem nodup_pathComponents {workspace : Path} {offered : Path → β → Prop}
    {tree : FileTree Text β} {artifacts : List (Artifact ε)}
    (hfiled : worker.Filed workspace offered tree artifacts) :
    (artifacts.map Artifact.pathComponents).Nodup := by
  -- The components determine the name.
  have hnames : (artifacts.map Artifact.pathComponents).map
      (fun components => join (components.drop workspace.length)) =
        artifacts.map Artifact.relativePath := by
    rw [List.map_map]
    refine List.map_congr_left fun artifact hmem => ?_
    obtain ⟨path, content, -, ⟨-, evidence, -, rfl⟩, -⟩ := hfiled.made artifact hmem
    simp [artifactOf, join_split]
  exact List.Nodup.of_map _ (hnames ▸ hfiled.nodup)

/-- The manifest is written beside what is offered. -/
theorem find_of_writeManifest {executor : Executor} {tree completed : FileTree Text β}
    {fingerprint : Text} {success : Success ε}
    (hwrite : worker.writeManifest tree operation fingerprint success = some completed)
    (hoffers : worker.Offers context request path content executor) :
    completed.find path = tree.find path := by
  rw [FileTree.find_write hwrite, if_neg (ne_workspaceManifest hoffers)]

variable {executor : Executor} {plan : Plan β ε} {before : Workspace β} {success : Success ε}
  {artifacts : List (Artifact ε)} {tree completed : FileTree Text β}

theorem realArtifact_of_made {artifact : Artifact ε}
    (hmade : worker.Made (workspaceComponents request) path content artifact)
    (hfind : completed.find path = some (.file content)) :
    worker.RealArtifact (workspaceComponents request) completed artifact := by
  obtain ⟨hsafe, evidence, -, rfl⟩ := hmade
  refine ⟨path, content, hsafe, ?_, hfind, rfl, rfl⟩
  rw [artifactOf, split_join hsafe]

section Completed

variable (hplan : worker.plan executor context request = .ok plan)
  (hbuild : plan.build.result = .ok (artifacts, tree))
  (hwrite : worker.writeManifest tree request.operation plan.sourceFingerprint success =
    some completed)

include hplan hbuild hwrite

/-- Where nothing falls into the quarantine, every artifact is real. -/
theorem real_of_clear (hclear : worker.Clear context request executor) :
    worker.Real request { before with completed := some (.directory completed) } artifacts := by
  have hfiled := (built_of_plan hplan hbuild).filed hclear
  refine ⟨completed, rfl, fun artifact hmem => ?_, nodup_pathComponents hfiled⟩
  obtain ⟨path, content, hoffers, hmade, hfind⟩ := hfiled.made artifact hmem
  refine realArtifact_of_made hmade ?_
  rw [find_of_writeManifest hwrite hoffers, hfind]

/-- An artifact for a file that fell into the quarantine has no file. -/
theorem clear_of_present (hpresent : ∀ artifact ∈ artifacts, ∀ path content,
      worker.Made (workspaceComponents request) path content artifact →
        completed.find path ≠ none) :
    worker.Clear context request executor := by
  rintro rfl path content hoffers hquarantine
  have hbuilt := built_of_plan hplan hbuild
  obtain ⟨artifact, hmem, hmade⟩ := hbuilt.covers path content hoffers
  apply hpresent artifact hmem path content hmade
  -- The artifact is at the path of the member, where there is nothing.
  obtain ⟨first, rest, rfl⟩ := List.exists_cons_of_ne_nil hmade.1.ne_nil
  cases hquarantine
  rw [find_of_writeManifest hwrite hoffers, hbuilt.removed rfl rest]

theorem clear_of_real (hreal : worker.Real request
      { before with completed := some (.directory completed) } artifacts) :
    worker.Clear context request executor := by
  obtain ⟨found, hfound, hreal, -⟩ := hreal
  obtain rfl : completed = found := by
    cases hfound
    rfl
  refine clear_of_present hplan hbuild hwrite fun artifact hmem path content hmade => ?_
  obtain ⟨path', content', -, hcomponents, hfind, -⟩ := hreal artifact hmem
  obtain ⟨hsafe, evidence, -, rfl⟩ := hmade
  obtain rfl : path = path' := by
    rw [artifactOf, split_join hsafe] at hcomponents
    exact List.append_cancel_left hcomponents
  rw [hfind]
  exact Option.some_ne_none _

end Completed

/-- The artifacts of a response that was built are files of the completed workspace,
each at its path, of its size and with its digest, and each its own, exactly if a RAR
archive offers nothing below the name of the quarantine. -/
theorem artifacts_real_iff_clear
    (hok : (worker.call executor context request before).response = .ok success)
    (hbuilt : (worker.call executor context request before).calls ≠ []) :
    worker.Real request (worker.call executor context request before).workspace
        success.artifacts ↔
      worker.Clear context request executor := by
  obtain ⟨plan, hplan, -, -, hanswered⟩ := answered_of_call hok
  generalize worker.call executor context request before = outcome at hbuilt hanswered ⊢
  cases hanswered with
  | stored _ _ => exact absurd rfl hbuilt
  | built _ hbuild _ hwrite =>
    exact ⟨clear_of_real hplan hbuild hwrite, real_of_clear hplan hbuild hwrite⟩

/-! ### A member below the name of the quarantine -/

/-- Contents for a small worker: plain data, and what JSON was written from. -/
inductive SampleContent
  | data (text : Text)
  | manifest (manifest : Manifest Unit)
  | response

def sampleCodec : Codec SampleContent Unit where
  marshalResponse _ := .response
  marshal manifest := .manifest (manifest.readBack id)
  unmarshal
    | .manifest manifest => some manifest
    | _ => none
  evidence := id
  unmarshal_marshal _ := rfl

def SampleContent.text : SampleContent → Text
  | .data text => text
  | _ => []

/-- A worker whose one source is an archive. -/
def sampleWorker (tar : TarArchive SampleContent) (rar : RarTools SampleContent) :
    Worker SampleContent Unit where
  unicode := Contracts.asciiLibraries.unicode
  sum256 := Contracts.rollingDigest
  length content := content.text.length
  digest content := Contracts.rollingDigest content.text
  codec := sampleCodec
  files := {
    openFile := fun _ _ _ => .ok ⟨⟨0, 0, 0, 0⟩, .data []⟩
    openDirectory := fun _ _ => .ok []
    path := fun _ => .ok ()
    verify := fun _ _ => .ok () }
  probe _ _ := .ok ()
  readTar _ := tar
  rar := some rar
  cue := none

def sampleContext : Context :=
  ⟨false, fun _ => false, fun _ => false, fun _ => false, fun _ => false, fun _ => false,
    fun _ => false, fun _ => false⟩

def sampleRequest (operation : Operation) : Request where
  schemaVersion := schemaVersion
  requestID := bytes "request:1"
  operation := operation
  rootID := bytes "root:1"
  sourceComponents := [bytes "archive"]
  expectedFingerprint := sha256Text (Contracts.rollingDigest [])
  workspaceID := bytes "workspace:1"

/-- A media root without a workspace. -/
def emptyWorkspace : Workspace SampleContent := ⟨true, true, none⟩

/-- Whether a response is a success. -/
def succeeds (response : Response ε) : Bool :=
  response.status = bytes "ok" && response.success.isSome && response.failure.isNone

theorem exists_ok_of_succeeds {response : Response ε} (hsucceeds : succeeds response) :
    ∃ success, response = .ok success := by
  obtain ⟨status, success, failure⟩ := response
  simp only [succeeds, Bool.and_eq_true, decide_eq_true_eq, Option.isNone_iff_eq_none] at hsucceeds
  obtain ⟨⟨rfl, hsuccess⟩, rfl⟩ := hsucceeds
  obtain ⟨success, rfl⟩ := Option.isSome_iff_exists.mp hsuccess
  exact ⟨success, rfl⟩

/-- A song, in a tar archive, and in a RAR archive below the name of the quarantine. -/
def songWorker : Worker SampleContent Unit :=
  sampleWorker ⟨[⟨bytes "a/song.flac", .regular, 1, .data [0]⟩], true⟩
    { lsar := fun _ => some ⟨2, [⟨bytes ".rar-extract/song.flac", some 1, false, false, false⟩]⟩
      unar := fun _ _ => some (.data [0]) }

/-- What the song worker does for the first time. -/
def songOutcome (executor : Executor) (operation : Operation) : Outcome SampleContent Unit :=
  songWorker.call executor sampleContext (sampleRequest operation) emptyWorkspace

theorem songOutcome_tar : ∃ success, (songOutcome .tar .tar).response = .ok success :=
  exists_ok_of_succeeds (by decide +kernel)

/-- The song from the tar archive is real. -/
theorem song_from_tar_real : ∃ success, (songOutcome .tar .tar).response = .ok success ∧
    (songOutcome .tar .tar).calls ≠ [] ∧
    songWorker.Real (sampleRequest .tar) (songOutcome .tar .tar).workspace success.artifacts := by
  obtain ⟨success, hok⟩ := songOutcome_tar
  have hcalls : (songOutcome .tar .tar).calls ≠ [] := by
    have hcalled : (songOutcome .tar .tar).calls.isEmpty = false := by decide +kernel
    simpa using hcalled
  exact ⟨success, hok, hcalls, (artifacts_real_iff_clear hok hcalls).mpr fun hrar => by cases hrar⟩

/-- The song from the RAR archive has an artifact, and no file. -/
theorem song_in_quarantine_missing : ∃ success, (songOutcome .rar .rar).response = .ok success ∧
    (songOutcome .rar .rar).calls ≠ [] ∧
    ¬ songWorker.Real (sampleRequest .rar) (songOutcome .rar .rar).workspace success.artifacts := by
  obtain ⟨success, hok⟩ : ∃ success, (songOutcome .rar .rar).response = .ok success :=
    exists_ok_of_succeeds (by decide +kernel)
  have hcalls : (songOutcome .rar .rar).calls ≠ [] := by
    have hcalled : (songOutcome .rar .rar).calls.isEmpty = false := by decide +kernel
    simpa using hcalled
  refine ⟨success, hok, hcalls, fun hreal => ?_⟩
  have hoffers : songWorker.Offers sampleContext (sampleRequest .rar)
      [bytes ".rar-extract", bytes "song.flac"] (.data [0]) .rar :=
    ⟨audioExtensions, _, _, _, rfl, rfl, rfl, rfl,
      ⟨_, List.mem_singleton_self _, rfl, by decide +kernel, rfl⟩, by decide +kernel⟩
  obtain ⟨plan, hplan, -, -, hanswered⟩ := answered_of_call hok
  change Answered _ _ _ _ _ (songOutcome .rar .rar) at hanswered
  generalize songOutcome .rar .rar = outcome at hcalls hanswered hreal
  cases hanswered with
  | stored _ _ => exact absurd rfl hcalls
  | built _ hbuild _ hwrite =>
    exact clear_of_real hplan hbuild hwrite hreal rfl _ _ hoffers rfl

end Worker

end NixConfig.MediaRepair.Materialize
