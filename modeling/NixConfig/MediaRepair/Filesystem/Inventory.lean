/-
# The inventory of a download

The controller walks what a download left on disk, compares it with the files
that the download client says it wrote, and lists what it found under names that
reveal no path. A repair publishes its result beside its sources; such a file is
not listed, unless the client itself knows of it.

The file system stands still during an inventory: what is read twice is the same
both times, so the checks that compare an entry with itself pass. Nothing but
what an entry is makes reading it fail, and the context is never cancelled.
-/

import NixConfig.Data.Index
import NixConfig.Data.Listing
import NixConfig.Data.Paths
import NixConfig.Data.Sorting
import NixConfig.MediaRepair.Controller

namespace NixConfig.MediaRepair.Filesystem

open Data Semantics
open Contracts
open Controller

/-! ## Published names -/

def publishedNameDomain : Text := bytes "radarr-repair-worker-published-name-v1" ++ [0]

/-- `repairartifact.PublishedName` -/
def publishedName (libraries : Libraries) (artifactID extension : Text) : Text :=
  publishedNamePrefix ++ hexEncode (libraries.sum256 (publishedNameDomain ++ artifactID)).val ++
    extension

/-! ## Errors -/

inductive InventoryError
  | message (format : String) (values : List Text)
  | wrapped (format : String) (values : List Text) (cause : InventoryError)

abbrev Result := Except InventoryError

def fail {α : Type} (format : String) (values : List Text) : Result α :=
  .error (.message format values)

/-! ## What is on disk -/

/-- What there is below a directory. -/
structure DirectoryTree extends Listing byteOrder FileFingerprint where
  plain : ∀ entry ∈ entries, ∀ name ∈ entry.path, PlainElement name

abbrev Entry := ListedEntry Text FileFingerprint

/-- What the root of a download is. -/
inductive Target
  | missing
  | directory (tree : DirectoryTree)
  /-- A file, which lies in a directory, or in a link to one. -/
  | regular (fingerprint : FileFingerprint) (inDirectory : Bool)
  | symlink
  | other

structure InventoryScope where
  rootPath : Text
  walkPath : Text
  singleFile : Bool

def resolveInventoryScope (downloadRoot : Text) : Target → Result InventoryScope
  | .missing => fail "inspect download target: %w" []
  | .directory _ => .ok ⟨downloadRoot, [dot], false⟩
  | .regular _ _ => .ok ⟨pathDir downloadRoot, pathBase downloadRoot, true⟩
  | .symlink | .other => fail "download target is not a regular file or directory" []

/-! ## The manifest -/

def contentManifest : Text := bytes "manifest"

def contentOutputTree : Text := bytes "output_tree"

def manifestRelativePath (inventoryRoot name : Text) : Result Text :=
  if name = [] ∨ 0 ∈ name ∨ !isAbs name then fail "path is invalid" []
  else if pathClean name ≠ name then fail "path is not canonical" []
  else
    match pathRel inventoryRoot name with
    | none => fail "path is outside the download root" []
    | some relative =>
      if relative = [dot] ∨ isAbs relative ∨ relative = dotDot ∨
          (dotDot ++ [slash]).isPrefixOf relative then
        fail "path is outside the download root" []
      else if !validPath relative then fail "relative path is invalid" []
      else .ok relative

/-- Files by their path below the root. -/
abbrev Manifest := List (Text × DownloadFile)

/-- One file of the download, onto the manifest and the indices so far. -/
def addManifestFile (inventoryRoot : Text) (built : Manifest × List Int) (file : DownloadFile) :
    Result (Manifest × List Int) :=
  let (manifest, seenIndices) := built
  if file.index < 0 then fail "download file index %d is invalid" [numeral file.index]
  else if file.index ∈ seenIndices then
    fail "download file index %d is duplicated" [numeral file.index]
  else do
    let relative ← (manifestRelativePath inventoryRoot file.path).mapError
      (.wrapped "download file %d: %w" [numeral file.index])
    if (manifest.lookup relative).isSome then fail "download path %q is duplicated" [relative]
    else pure (manifest ++ [(relative, file)], seenIndices ++ [file.index])

def buildManifest (correlation : DownloadCorrelation) (inventoryRoot : Text) : Result Manifest :=
  let download := correlation.download
  if download.contentOwnership = contentOutputTree then
    if download.files ≠ [] then
      fail "output-tree download must not contain a source manifest" []
    else .ok []
  else if download.contentOwnership ≠ contentManifest then
    fail "download content ownership %q is invalid" [download.contentOwnership]
  else Prod.fst <$> download.files.foldlM (addManifestFile inventoryRoot) ([], [])

def validateManifestScope (manifest : Manifest) (scope : InventoryScope) (ownership : Text) :
    Result Unit :=
  if ownership = contentOutputTree then .ok ()
  else if !scope.singleFile then .ok ()
  else if manifest.length ≠ 1 then
    fail "single-file download has %d manifest files" [numeral manifest.length]
  else if (manifest.lookup scope.walkPath).isNone then
    fail "download manifest does not match single-file download" []
  else .ok ()

/-! ## The walk -/

structure ObservedFile where
  path : Text
  info : FileFingerprint

def openRegularFile (path : Text) (fingerprint : FileFingerprint) : Result ObservedFile :=
  if path = [dot] ∨ [slash].isSuffixOf path then fail "regular file path %q is invalid" [path]
  else .ok ⟨path, fingerprint⟩

/-- What the walk does with one entry. -/
def visit (path : Text) (node : ListedNode FileFingerprint) : Result (Option ObservedFile) :=
  if !validPath path then fail "filesystem returned invalid relative path %q" [path]
  else
    match node with
    | .directory => .ok none
    | .regular fingerprint => some <$> openRegularFile path fingerprint
    | .symlink => fail "filesystem entry %q is a symbolic link" [path]
    | .other => fail "filesystem entry %q is not a regular file or directory" [path]

def visitEntry (entry : Entry) : Result (Option ObservedFile) :=
  visit ([slash].intercalate entry.path) entry.node

/-- The root of the inventory must be a directory. -/
def inspectRoot : Target → Result Unit
  | .regular _ false => fail "inventory root is not a regular directory" []
  | _ => .ok ()

/-- `fs.WalkDir` from the place where the walk starts. -/
def walkDir (walkPath : Text) : Target → Result (List ObservedFile)
  | .directory tree => do
    let _ ← visit [dot] .directory
    walk visitEntry tree.entries
  | .regular fingerprint _ =>
    -- An opened root answers for valid paths only.
    if !validPath walkPath then fail "lstat %s: invalid argument" [walkPath]
    else walk (visit walkPath) [.regular fingerprint]
  -- There is no scope for anything else.
  | .missing | .symlink | .other => .ok []

/-! ## The inventory -/

def opaqueFileID (libraries : Libraries) (downloadID relativePath : Text) : FileID :=
  bytes "file:" ++ hexEncode (libraries.sum256
    (bytes "radarr-repair-file-v1" ++ 0 :: downloadID ++ 0 :: relativePath)).val

/-- What the loop over the observed files has collected. -/
structure Assembling where
  files : List InventoryFile := []
  paths : List FilePathMapping := []
  seenIDs : List FileID := []
  /-- The paths of the manifest that were found. -/
  found : List Text := []

def outputTreeReference (fingerprint : FileFingerprint) : DownloadFileReference where
  index := 0
  hasIndex := false
  lengthBytes := fingerprint.sizeBytes
  bytesCompleted := fingerprint.sizeBytes
  selected := true

def manifestReference (file : DownloadFile) : DownloadFileReference where
  index := file.index
  hasIndex := file.hasIndex
  lengthBytes := file.lengthBytes
  bytesCompleted := file.bytesCompleted
  selected := file.selected

section Assembly

variable (libraries : Libraries) (correlation : DownloadCorrelation) (manifest : Manifest)
  (inventoryRoot : Text)

/-- List one observed file. -/
def Assembling.add (state : Assembling) (observed : ObservedFile)
    (reference : Option DownloadFileReference) (found : List Text) : Assembling :=
  let fileID := opaqueFileID libraries correlation.download.id observed.path
  { files := state.files ++ [⟨fileID, observed.path.splitOn slash, observed.info, reference⟩]
    paths := state.paths ++ [⟨fileID, pathJoin inventoryRoot observed.path⟩]
    seenIDs := state.seenIDs ++ [fileID]
    found := found }

def assembleFile (state : Assembling) (observed : ObservedFile) : Result Assembling :=
  let expected := manifest.lookup observed.path
  if expected.isNone && isPublishedName (pathBase observed.path) then .ok state
  else
    let fileID := opaqueFileID libraries correlation.download.id observed.path
    if fileID ∈ state.seenIDs then fail "opaque file ID collision" []
    else if correlation.download.contentOwnership = contentOutputTree then
      .ok (state.add libraries correlation inventoryRoot observed
        (some (outputTreeReference observed.info)) state.found)
    else
      match expected with
      | none => .ok (state.add libraries correlation inventoryRoot observed none state.found)
      | some file =>
        if observed.info.sizeBytes ≠ file.lengthBytes then
          fail "filesystem entry %q size does not match download manifest" [observed.path]
        else
          .ok (state.add libraries correlation inventoryRoot observed
            (some (manifestReference file)) (state.found ++ [observed.path]))

/-- Whether the manifest wants a file that was not found. -/
def missing (found : List Text) (relative : Text) : Bool :=
  (manifest.lookup relative).any DownloadFile.selected && !found.contains relative

def assembleInventory (observed : List ObservedFile) : Result FileInventory := do
  let state ← observed.foldlM (assembleFile libraries correlation manifest inventoryRoot) {}
  let manifestPaths := (Sorting.insertion byteOrder).sort (manifest.map Prod.fst)
  match manifestPaths.find? (missing manifest state.found) with
  | some relative => fail "selected download file %q is missing" [relative]
  | none => pure ⟨state.files, state.paths⟩

end Assembly

def inventory (libraries : Libraries) (correlation : DownloadCorrelation) (target : Target) :
    Result FileInventory :=
  if !correlation.eligible then fail "download correlation is ineligible" []
  else do
    let scope ← resolveInventoryScope correlation.downloadRoot target
    let manifest ← buildManifest correlation scope.rootPath
    validateManifestScope manifest scope correlation.download.contentOwnership
    inspectRoot target
    let observed ← (walkDir scope.walkPath target).mapError (.wrapped "walk download root: %w" [])
    assembleInventory libraries correlation manifest scope.rootPath observed

/-! ## Recognizing published names -/

def publishedExtensions : List Text := [bytes ".avi", bytes ".mkv", bytes ".mp4"]

/-- A name of the form that `PublishedName` produces, whatever the digest. -/
def PublishedForm (name : Text) : Prop :=
  ∃ digest : Digest, ∃ extension ∈ publishedExtensions,
    name = publishedNamePrefix ++ hexEncode digest.val ++ extension

variable {extension name : Text} {front : List Text} {target : Target}
  {observed : List ObservedFile} {libraries : Libraries} {correlation : DownloadCorrelation}

theorem publishedForm_publishedName (libraries : Libraries) (artifactID : Text)
    (hextension : extension ∈ publishedExtensions) :
    PublishedForm (publishedName libraries artifactID extension) :=
  ⟨_, extension, hextension, rfl⟩

theorem cutSuffix_append (stem suffix : Text) : cutSuffix (stem ++ suffix) suffix = some stem := by
  simp [cutSuffix]

theorem cutSuffix_append_of_ne (stem : Text) {suffix other : Text}
    (hlength : other.length = suffix.length) (hne : other ≠ suffix) :
    cutSuffix (stem ++ suffix) other = none := by
  have hno : ¬ other <:+ stem ++ suffix := by
    intro hsuffix
    have hends := List.suffix_of_suffix_length_le hsuffix (List.suffix_append stem suffix)
      hlength.le
    exact hne (hends.eq_of_length hlength)
  rw [cutSuffix, if_neg (by simpa using hno)]

/-- A name of some bytes and a digest has no other bytes than these and digits. -/
theorem not_mem_publishedForm (digest : Digest) {byte : UInt8}
    (hextension : extension ∈ publishedExtensions) (hbyte : byte = slash ∨ byte = 0x5C) :
    byte ∉ publishedNamePrefix ++ hexEncode digest.val ++ extension := by
  obtain ⟨hascii, hstart, hend, hdigits⟩ : byte < 0x80 ∧ byte ∉ publishedNamePrefix ∧
      (∀ other ∈ publishedExtensions, byte ∉ other) ∧
      ∀ n < 16, (hexDigit n).toNat ≠ byte.toNat := by
    rcases hbyte with rfl | rfl <;> decide
  rw [List.mem_append, List.mem_append, not_or, not_or]
  refine ⟨⟨hstart, fun hmem => ?_⟩, hend extension hextension⟩
  obtain ⟨c, hc, hsame⟩ := exists_mem_of_mem_utf8 hmem hascii
  obtain ⟨n, hn, rfl⟩ := exists_of_mem_hexChars hc
  exact hdigits n hn hsame

/-- Every name that a repair can publish under is recognized. -/
theorem isPublishedName_of_publishedForm (hform : PublishedForm name) :
    isPublishedName name = true := by
  obtain ⟨digest, extension, hextension, rfl⟩ := hform
  have hslash := not_mem_publishedForm digest hextension (.inl rfl)
  have hbackslash := not_mem_publishedForm digest hextension (.inr rfl)
  have hstem : [".avi", ".mkv", ".mp4"].findSome? (fun extension' =>
      cutSuffix (publishedNamePrefix ++ hexEncode digest.val ++ extension) (bytes extension')) =
      some (publishedNamePrefix ++ hexEncode digest.val) := by
    simp only [publishedExtensions, List.mem_cons, List.not_mem_nil, or_false] at hextension
    rcases hextension with rfl | rfl | rfl
    · rw [List.findSome?_cons, cutSuffix_append]
    · rw [List.findSome?_cons, cutSuffix_append_of_ne _ (by decide) (by decide),
        List.findSome?_cons, cutSuffix_append]
    · rw [List.findSome?_cons, cutSuffix_append_of_ne _ (by decide) (by decide),
        List.findSome?_cons, cutSuffix_append_of_ne _ (by decide) (by decide),
        List.findSome?_cons, cutSuffix_append]
  have hdigest : List.dropPrefix? (publishedNamePrefix ++ hexEncode digest.val)
      publishedNamePrefix = some (hexEncode digest.val) :=
    List.dropPrefix?_append_of_beq _ (by simp)
  have hlength : (hexEncode digest.val).length = 64 := by
    rw [length_hexEncode, digest.property]
  have hdigits : (chars (hexEncode digest.val)).all isHexDigit = true := by
    rw [hexEncode, chars_utf8, List.all_eq_true]
    exact fun c hc => isHexDigit_of_mem_hexChars hc
  rw [isPublishedName, hstem]
  simp only [List.contains_eq_mem, hslash, hbackslash, hdigest, hlength, hdigits]
  rfl

/-! ## The files that the walk finds -/

section Walk

variable {path : Text} {node : ListedNode FileFingerprint} {observed : ObservedFile}

theorem visit_eq_ok_some (hvisit : visit path node = .ok (some observed)) :
    observed.path = path ∧ node = .regular observed.info ∧
      ∀ element ∈ path.splitOn slash, PlainElement element := by
  obtain ⟨hvalid, hvisit⟩ := ite_error_eq_ok.mp hvisit
  cases node with
  | directory => cases hvisit
  | symlink => cases hvisit
  | other => cases hvisit
  | regular fingerprint =>
    simp only [openRegularFile, fail, map_eq_ok, ite_error_eq_ok, not_or] at hvisit
    obtain ⟨opened, ⟨hregular, ⟨⟩⟩, ⟨⟩⟩ := hvisit
    exact ⟨rfl, rfl, plainElement_of_validPath (by simpa using hvalid) hregular.1⟩

/-- A visit passes only paths that are well-formed texts. -/
theorem isUtf8_of_visit {found : Option ObservedFile} (hvisit : visit path node = .ok found) :
    isUtf8 path = true := by
  unfold visit at hvisit
  split at hvisit
  · cases hvisit
  rename_i hvalid
  have hvalid : validPath path = true := by simpa using hvalid
  exact (Bool.and_eq_true_iff.mp hvalid).1

/-- A file at plain names is visited if its path is a well-formed text. -/
theorem visitEntry_regular {entry : Entry} {fingerprint : FileFingerprint}
    (hne : entry.path ≠ []) (hplain : ∀ name ∈ entry.path, PlainElement name)
    (hnode : entry.node = .regular fingerprint)
    (hutf8 : isUtf8 ([slash].intercalate entry.path) = true) :
    visitEntry entry = .ok (some ⟨[slash].intercalate entry.path, fingerprint⟩) := by
  have hdot : [slash].intercalate entry.path ≠ [dot] := by
    intro hsame
    have hsplit := splitOn_join hne hplain
    rw [hsame] at hsplit
    have hmem : [dot] ∈ entry.path := hsplit ▸ by decide
    exact (hplain _ hmem).ne_dot rfl
  have hslash : ¬ [slash].isSuffixOf ([slash].intercalate entry.path) = true := by
    rw [List.isSuffixOf_iff_suffix]
    rintro ⟨front, hfront⟩
    -- A slash at the end would leave an empty name behind it.
    have hsplit := splitOn_join hne hplain
    rw [← hfront, splitOn_append_slash] at hsplit
    have hmem : [] ∈ entry.path := hsplit ▸ List.mem_append_right _ (by decide)
    exact (hplain _ hmem).ne_nil rfl
  have hopen : openRegularFile ([slash].intercalate entry.path) fingerprint =
      .ok ⟨[slash].intercalate entry.path, fingerprint⟩ := if_neg (not_or.mpr ⟨hdot, hslash⟩)
  unfold visitEntry visit
  rw [hnode, validPath_join hne hplain hutf8]
  exact map_eq_ok.mpr ⟨_, hopen, rfl⟩

end Walk

/-! ## The files of the manifest -/

section Manifest

variable {correlation : DownloadCorrelation} {root : Text} {manifest : Manifest}

theorem manifestRelativePath_eq_ok {name relative : Text}
    (hrelative : manifestRelativePath root name = .ok relative) :
    isAbs root = true ∧ name = pathJoin root relative ∧
      ∀ element ∈ relative.splitOn slash, PlainElement element := by
  simp only [manifestRelativePath, fail, ite_error_eq_ok, not_or, not_not, Bool.not_eq_true',
    Bool.not_eq_false] at hrelative
  obtain ⟨⟨-, -, hname⟩, hclean, hrelative⟩ := hrelative
  split at hrelative
  · cases hrelative
  rename_i found hfound
  simp only [ite_error_eq_ok, not_or, List.isPrefixOf_iff_prefix] at hrelative
  obtain ⟨⟨hdot, -, hup, habove⟩, hvalid, ⟨⟩⟩ := hrelative
  obtain ⟨habs, hjoin⟩ := pathJoin_of_pathRel hname hclean hfound hdot hup habove
  exact ⟨habs, hjoin, plainElement_of_validPath (by simpa using hvalid) hdot⟩

/-- What a manifest holds of the files of its download. -/
structure Built (correlation : DownloadCorrelation) (root : Text) (manifest : Manifest) : Prop where
  file : ∀ entry ∈ manifest, entry.2 ∈ correlation.download.files ∧
    manifestRelativePath root entry.2.path = .ok entry.1
  listed : ∀ file ∈ correlation.download.files, ∃ relative,
    manifest.lookup relative = some file ∧ manifestRelativePath root file.path = .ok relative
  owned : correlation.download.files ≠ [] →
    correlation.download.contentOwnership ≠ contentOutputTree

/-- The step of the loop over the files of a download. -/
theorem addManifestFile_eq_ok {built next : Manifest × List Int} {file : DownloadFile}
    (hadd : addManifestFile root built file = .ok next) :
    ∃ relative, manifestRelativePath root file.path = .ok relative ∧
      built.1.lookup relative = none ∧ next.1 = built.1 ++ [(relative, file)] := by
  simp only [addManifestFile, fail, bind_eq_ok, mapError_eq_ok, ite_error_eq_ok,
    Option.not_isSome_iff_eq_none] at hadd
  obtain ⟨-, -, relative, hrelative, hfresh, ⟨⟩⟩ := hadd
  exact ⟨relative, hrelative, hfresh, rfl⟩

/-- Every file that the loop has seen is found under its own path, and nothing else is
there. -/
def Holds (root : Text) (done : List DownloadFile) (manifest : Manifest) : Prop :=
  (∀ entry ∈ manifest, entry.2 ∈ done ∧ manifestRelativePath root entry.2.path = .ok entry.1) ∧
  ∀ file ∈ done, ∃ relative, manifest.lookup relative = some file ∧
    manifestRelativePath root file.path = .ok relative

theorem built_of_buildManifest (hbuild : buildManifest correlation root = .ok manifest) :
    Built correlation root manifest := by
  unfold buildManifest at hbuild
  dsimp only at hbuild
  split at hbuild
  · split at hbuild
    · cases hbuild
    rename_i hnone
    cases hbuild
    rw [ne_eq, not_not] at hnone
    refine ⟨by simp, ?_, fun hsome => absurd hnone hsome⟩
    rw [hnone]
    simp
  rename_i howner
  split at hbuild
  · cases hbuild
  obtain ⟨built, hfold, rfl⟩ := map_eq_ok.mp hbuild
  have hloop : Holds root correlation.download.files built.1 := by
    refine foldlM_invariant (fun done built => Holds root done built.1) ⟨by simp, by simp⟩ ?_ hfold
    rintro done built file next ⟨hfile, hlisted⟩ hadd
    obtain ⟨relative, hrelative, hfresh, hnext⟩ := addManifestFile_eq_ok hadd
    rw [hnext]
    constructor
    · refine List.forall_mem_append.mpr ⟨fun entry hmem => ?_, List.forall_mem_singleton.mpr
        ⟨List.mem_append_right _ List.mem_cons_self, hrelative⟩⟩
      exact (hfile entry hmem).imp_left (List.mem_append_left _)
    · refine List.forall_mem_append.mpr ⟨fun other hmem => ?_, List.forall_mem_singleton.mpr
        ⟨relative, by simp [List.lookup_append, hfresh], hrelative⟩⟩
      obtain ⟨path, hlookup, hpath⟩ := hlisted other hmem
      exact ⟨path, by rw [List.lookup_append, hlookup]; rfl, hpath⟩
  exact ⟨hloop.1, hloop.2, fun _ => howner⟩

theorem Built.lookup_eq_none (hbuilt : Built correlation root manifest) {path : Text}
    (hother : pathJoin root path ∉ correlation.download.files.map DownloadFile.path) :
    manifest.lookup path = none := by
  by_contra hsome
  obtain ⟨file, hlookup⟩ := Option.ne_none_iff_exists'.mp hsome
  obtain ⟨hfile, hrelative⟩ := hbuilt.file _ (mem_of_lookup hlookup)
  obtain ⟨-, hjoin, -⟩ := manifestRelativePath_eq_ok hrelative
  exact hother (List.mem_map.mpr ⟨file, hfile, hjoin⟩)

end Manifest

/-! ## Adding published files -/

/-- A file that a repair published beside the sources of a download. -/
structure IsPublishedRepair (correlation : DownloadCorrelation) (entry : Entry) : Prop where
  regular : ∃ fingerprint, entry.node = .regular fingerprint
  named : ∃ name, entry.path.getLast? = some name ∧ PublishedForm name
  unmanaged : pathJoin correlation.downloadRoot ([slash].intercalate entry.path) ∉
    correlation.download.files.map DownloadFile.path

theorem isUtf8_of_publishedForm (hform : PublishedForm name) :
    isUtf8 name = true := by
  obtain ⟨digest, extension, hextension, rfl⟩ := hform
  have hextension : ∃ cs, extension = utf8 cs := by
    simp only [publishedExtensions, List.mem_cons, List.not_mem_nil, or_false] at hextension
    rcases hextension with rfl | rfl | rfl
    · exact ⟨_, rfl⟩
    · exact ⟨_, rfl⟩
    · exact ⟨_, rfl⟩
  obtain ⟨cs, rfl⟩ := hextension
  refine isUtf8_iff.mpr ⟨"radarr-repair-".toList ++ hexChars digest.val ++ cs, ?_⟩
  rw [utf8_append, utf8_append]
  rfl

theorem isUtf8_join_concat (hname : isUtf8 name = true)
    (hfront : front ≠ [] → isUtf8 ([slash].intercalate front) = true) :
    isUtf8 ([slash].intercalate (front ++ [name])) = true := by
  by_cases hnone : front = []
  · simpa [hnone] using hname
  · obtain ⟨cs, hcs⟩ := isUtf8_iff.mp (hfront hnone)
    obtain ⟨ds, hds⟩ := isUtf8_iff.mp hname
    refine isUtf8_iff.mpr ⟨cs ++ '/' :: ds, ?_⟩
    rw [join_append hnone (List.cons_ne_nil _ _), hcs, utf8_append, utf8_cons]
    simp [hds]
    rfl

theorem pathBase_join_concat (hname : PlainElement name) :
    pathBase ([slash].intercalate (front ++ [name])) = name := by
  by_cases hnone : front = []
  · simpa [hnone] using pathBase_of_plainElement hname
  · rw [join_append hnone (List.cons_ne_nil _ _)]
    simpa using pathBase_append_slash ([slash].intercalate front) hname

section Enlarged

variable {correlation : DownloadCorrelation} {tree enlarged : DirectoryTree} {added : List Entry}
  (libraries : Libraries) (hperm : enlarged.entries.Perm (tree.entries ++ added))
  (hpublished : ∀ entry ∈ added, IsPublishedRepair correlation entry)

include hperm

theorem mem_of_path_mem {entry : Entry}
    (hmem : entry ∈ enlarged.entries) (hpath : entry.path ∈ added.map ListedEntry.path) :
    entry ∈ added := by
  obtain ⟨other, hother, hsame⟩ := List.mem_map.mp hpath
  have hlisted : other ∈ enlarged.entries := hperm.mem_iff.mpr (List.mem_append_right _ hother)
  rwa [← List.inj_on_of_nodup_map enlarged.nodup_path hlisted hmem hsame]

theorem path_mem_iff {entry : Entry}
    (hmem : entry ∈ enlarged.entries) :
    [slash].intercalate entry.path ∈ added.map (fun other => [slash].intercalate other.path) ↔
      entry.path ∈ added.map ListedEntry.path := by
  have hsplit : ∀ other ∈ enlarged.entries,
      ([slash].intercalate other.path).splitOn slash = other.path := fun other hother =>
    splitOn_join (enlarged.closed other hother).1 (enlarged.plain other hother)
  constructor
  · intro hjoined
    obtain ⟨other, hother, hsame⟩ := List.mem_map.mp hjoined
    have hlisted : other ∈ enlarged.entries := hperm.mem_iff.mpr (List.mem_append_right _ hother)
    rw [← hsplit entry hmem, ← hsame, hsplit other hlisted]
    exact List.mem_map_of_mem hother
  · intro hpath
    exact List.mem_map.mpr ⟨entry, mem_of_path_mem hperm hmem hpath, rfl⟩

include hpublished

/-- Published files change nothing of a walk but that they are found. -/
theorem walk_enlarged :
    walk visitEntry tree.entries = (walk visitEntry enlarged.entries).map (List.filter
      fun observed => observed.path ∉ added.map fun entry => [slash].intercalate entry.path) := by
  rw [← Listing.filter_eq_of_perm hperm]
  refine walk_filter ?found ?pass
  case found =>
    intro entry hmem observed hvisit
    obtain ⟨hpath, -, -⟩ := visit_eq_ok_some hvisit
    rw [hpath, decide_eq_decide, path_mem_iff hperm hmem]
  case pass =>
    intro before entry after hentries hdrop hearlier
    have hmem : entry ∈ enlarged.entries := by simp [hentries]
    have hadded : entry ∈ added := mem_of_path_mem hperm hmem (by simpa using hdrop)
    obtain ⟨⟨fingerprint, hnode⟩, ⟨name, hlast, hform⟩, -⟩ := hpublished entry hadded
    have hpath : entry.path = entry.path.dropLast ++ [name] :=
      (List.dropLast_append_getLast? name hlast).symm
    refine ⟨_, visitEntry_regular (enlarged.closed entry hmem).1 (enlarged.plain entry hmem) hnode ?_⟩
    rw [hpath]
    refine isUtf8_join_concat (isUtf8_of_publishedForm hform) ?_
    intro hparent
    -- The walk has been in the directory of the file, so its path is well-formed.
    obtain ⟨parent, hbefore, hname, -⟩ := Listing.exists_parent_before hentries hparent
    obtain ⟨result, hvisit⟩ := hearlier parent hbefore
    rw [← hname]
    exact isUtf8_of_visit hvisit

/-- Published files are passed over. -/
theorem assembleInventory_enlarged {manifest : Manifest}
    (hbuilt : Built correlation correlation.downloadRoot manifest)
    (observed : List ObservedFile) :
    assembleInventory libraries correlation manifest correlation.downloadRoot (observed.filter
      fun file => file.path ∉ added.map fun entry => [slash].intercalate entry.path) =
      assembleInventory libraries correlation manifest correlation.downloadRoot observed := by
  rw [assembleInventory, foldlM_filter ?skip]
  · rfl
  case skip =>
    intro file _ hdrop state
    obtain ⟨entry, hentry, hpath⟩ := List.mem_map.mp (by simpa using hdrop)
    obtain ⟨-, ⟨name, hlast, hform⟩, hunmanaged⟩ := hpublished entry hentry
    have hmem : entry ∈ enlarged.entries := hperm.mem_iff.mpr (List.mem_append_right _ hentry)
    have hplain : PlainElement name :=
      enlarged.plain entry hmem name (List.mem_of_getLast? hlast)
    have hlookup : manifest.lookup file.path = none := by
      rw [← hpath]
      exact hbuilt.lookup_eq_none hunmanaged
    have hname : isPublishedName (pathBase file.path) = true := by
      rw [← hpath, ← List.dropLast_append_getLast? name hlast, pathBase_join_concat hplain]
      exact isPublishedName_of_publishedForm hform
    rw [assembleFile, hlookup, hname]
    rfl

omit hperm hpublished in
theorem inventory_directory (correlation : DownloadCorrelation)
    (tree : DirectoryTree) : inventory libraries correlation (.directory tree) =
      if !correlation.eligible then fail "download correlation is ineligible" []
      else (do
        let manifest ← buildManifest correlation correlation.downloadRoot
        validateManifestScope manifest ⟨correlation.downloadRoot, [dot], false⟩
          correlation.download.contentOwnership
        let observed ← (walk visitEntry tree.entries).mapError
          (.wrapped "walk download root: %w" [])
        assembleInventory libraries correlation manifest correlation.downloadRoot observed) := by
  rfl

theorem inventory_enlarged : inventory libraries correlation (.directory enlarged) =
      inventory libraries correlation (.directory tree) := by
  rw [inventory_directory, inventory_directory, walk_enlarged hperm hpublished]
  split
  · rfl
  cases hbuild : buildManifest correlation correlation.downloadRoot with
  | error err => rfl
  | ok manifest =>
    have hassemble := assembleInventory_enlarged libraries hperm hpublished
      (built_of_buildManifest hbuild)
    cases walk visitEntry enlarged.entries with
    | error err => rfl
    | ok observed =>
      refine congrArg (validateManifestScope manifest _ _ >>= ·) (funext fun _ => ?_)
      exact (hassemble observed).symm

end Enlarged

/-! ## What an inventory lists -/

/-- The directory that the paths of an inventory are below. -/
def Target.rootPath (downloadRoot : Text) : Target → Text
  | .regular _ _ => pathDir downloadRoot
  | _ => downloadRoot

/-- Where a listed file is. -/
def absolutePath (root : Text) (file : InventoryFile) : Text :=
  pathJoin root ([slash].intercalate file.pathComponents)

section Listed

variable {libraries : Libraries} {correlation : DownloadCorrelation} {manifest : Manifest}
  {root : Text}

/-- A file is passed over, or listed under a new name; and one of the manifest has its size. -/
theorem assembleFile_eq_ok {state next : Assembling} {observed : ObservedFile}
    (hstep : assembleFile libraries correlation manifest root state observed = .ok next) :
    next = state ∨ opaqueFileID libraries correlation.download.id observed.path ∉ state.seenIDs ∧
      ∃ reference found, next = state.add libraries correlation root observed reference found ∧
        (found = state.found ∨ ∃ file, manifest.lookup observed.path = some file ∧
          observed.info.sizeBytes = file.lengthBytes ∧ reference = some (manifestReference file) ∧
          found = state.found ++ [observed.path]) := by
  unfold assembleFile at hstep
  dsimp only at hstep
  split at hstep
  · exact .inl (Except.ok.inj hstep).symm
  split at hstep
  · cases hstep
  rename_i hfresh
  refine .inr ⟨hfresh, ?_⟩
  split at hstep
  · exact ⟨_, _, (Except.ok.inj hstep).symm, .inl rfl⟩
  split at hstep
  · exact ⟨_, _, (Except.ok.inj hstep).symm, .inl rfl⟩
  rename_i file hlookup
  split at hstep
  · cases hstep
  rename_i hsize
  exact ⟨_, _, (Except.ok.inj hstep).symm, .inr ⟨file, hlookup, not_not.mp hsize, rfl, rfl⟩⟩

/-- What the loop has listed of the files that it has seen. -/
structure Collected (libraries : Libraries) (correlation : DownloadCorrelation)
    (manifest : Manifest) (root : Text) (done : List ObservedFile) (state : Assembling) :
    Prop where
  seen : state.seenIDs = state.files.map InventoryFile.id
  ids : (state.files.map InventoryFile.id).Nodup
  paths : state.paths = state.files.map fun file => ⟨file.id, absolutePath root file⟩
  files : ∀ file ∈ state.files, ∃ observed ∈ done,
    file.pathComponents = observed.path.splitOn slash ∧
    file.id = opaqueFileID libraries correlation.download.id observed.path
  found : ∀ path ∈ state.found, ∃ file ∈ state.files, ∃ expected,
    manifest.lookup path = some expected ∧ file.pathComponents = path.splitOn slash ∧
    file.fingerprint.sizeBytes = expected.lengthBytes ∧
    file.downloadFile = some (manifestReference expected)

theorem Collected.step {done : List ObservedFile} {state next : Assembling}
    {observed : ObservedFile} (hcollected : Collected libraries correlation manifest root done state)
    (hstep : assembleFile libraries correlation manifest root state observed = .ok next) :
    Collected libraries correlation manifest root (done ++ [observed]) next := by
  obtain ⟨hseen, hids, hpaths, hfiles, hfound⟩ := hcollected
  have hdone : ∀ file ∈ state.files, ∃ other ∈ done ++ [observed],
      file.pathComponents = other.path.splitOn slash ∧
      file.id = opaqueFileID libraries correlation.download.id other.path := by
    intro file hmem
    obtain ⟨other, hother, hfile⟩ := hfiles file hmem
    exact ⟨other, List.mem_append_left _ hother, hfile⟩
  rcases assembleFile_eq_ok hstep with rfl | ⟨hfresh, reference, found, rfl, hnew⟩
  · exact ⟨hseen, hids, hpaths, hdone, hfound⟩
  refine ⟨?seen, ?ids, ?paths, ?files, ?found⟩
  case seen => simp [Assembling.add, hseen]
  case ids =>
    rw [hseen] at hfresh
    simp only [Assembling.add, List.map_append, List.map_singleton]
    exact List.nodup_append'.mpr ⟨hids, List.nodup_singleton _, by simpa using hfresh⟩
  case paths =>
    have hjoined : [slash].intercalate (observed.path.splitOn slash) = observed.path :=
      List.intercalate_splitOn slash
    simp [Assembling.add, hpaths, absolutePath, hjoined]
  case files =>
    exact List.forall_mem_append.mpr ⟨hdone, List.forall_mem_singleton.mpr
      ⟨observed, List.mem_append_right _ List.mem_cons_self, rfl, rfl⟩⟩
  case found =>
    intro path hmem
    by_cases hbefore : path ∈ state.found
    · obtain ⟨file, hfile, hexpected⟩ := hfound path hbefore
      exact ⟨file, List.mem_append_left _ hfile, hexpected⟩
    rcases hnew with rfl | ⟨expected, hlookup, hsize, rfl, rfl⟩
    · exact absurd hmem hbefore
    · obtain rfl := List.mem_singleton.mp ((List.mem_append.mp hmem).resolve_left hbefore)
      exact ⟨_, List.mem_append_right _ List.mem_cons_self, expected, hlookup, rfl, hsize, rfl⟩

theorem assembleInventory_eq_ok {observed : List ObservedFile} {listed : FileInventory}
    (hassemble : assembleInventory libraries correlation manifest root observed = .ok listed) :
    ∃ state, Collected libraries correlation manifest root observed state ∧
      (∀ relative file, manifest.lookup relative = some file → file.selected = true →
        relative ∈ state.found) ∧
      listed = ⟨state.files, state.paths⟩ := by
  obtain ⟨state, hfold, hlisted⟩ := bind_eq_ok.mp hassemble
  have hempty : Collected libraries correlation manifest root [] {} :=
    { seen := rfl, ids := List.nodup_nil, paths := rfl, files := by simp, found := by simp }
  refine ⟨state, foldlM_invariant (Collected libraries correlation manifest root) hempty
    (fun _ _ _ _ => Collected.step) hfold, ?_⟩
  dsimp only at hlisted
  split at hlisted
  · cases hlisted
  rename_i hnone
  refine ⟨?_, (Except.ok.inj hlisted).symm⟩
  intro relative file hlookup hselected
  have hmem : relative ∈ (Sorting.insertion byteOrder).sort (manifest.map Prod.fst) :=
    ((Sorting.insertion byteOrder).perm _).mem_iff.mpr
      (List.mem_map.mpr ⟨_, mem_of_lookup hlookup, rfl⟩)
  have hfound := List.find?_eq_none.mp hnone relative hmem
  simpa [missing, hlookup, hselected] using hfound

end Listed

/-- Every file that the walk finds is at plain names. -/
theorem plainElement_of_walkDir {walkPath : Text} (hwalk : walkDir walkPath target = .ok observed) :
    ∀ file ∈ observed, ∀ element ∈ file.path.splitOn slash, PlainElement element := by
  intro file hmem
  cases target with
  | missing =>
    cases hwalk
    cases hmem
  | symlink =>
    cases hwalk
    cases hmem
  | other =>
    cases hwalk
    cases hmem
  | directory tree =>
    obtain ⟨-, -, hwalk⟩ := bind_eq_ok.mp hwalk
    obtain ⟨entry, -, hvisit⟩ := exists_visit_of_walk hwalk hmem
    obtain ⟨hpath, -, hplain⟩ := visit_eq_ok_some hvisit
    rwa [hpath]
  | regular fingerprint inDirectory =>
    rw [walkDir] at hwalk
    split at hwalk
    · cases hwalk
    obtain ⟨node, -, hvisit⟩ := exists_visit_of_walk hwalk hmem
    obtain ⟨hpath, -, hplain⟩ := visit_eq_ok_some hvisit
    rwa [hpath]

theorem rootPath_of_resolveInventoryScope {downloadRoot : Text} {scope : InventoryScope}
    (hscope : resolveInventoryScope downloadRoot target = .ok scope) :
    scope.rootPath = target.rootPath downloadRoot := by
  cases target with
  | missing => cases hscope
  | symlink => cases hscope
  | other => cases hscope
  | directory tree =>
    cases hscope
    rfl
  | regular fingerprint inDirectory =>
    cases hscope
    rfl

/-- An inventory was collected from what the walk found, for the manifest of the download. -/
theorem inventory_eq_ok {listed : FileInventory}
    (hinventory : inventory libraries correlation target = .ok listed) :
    ∃ manifest observed state,
      Built correlation (target.rootPath correlation.downloadRoot) manifest ∧
      (∀ file ∈ observed, ∀ element ∈ file.path.splitOn slash, PlainElement element) ∧
      Collected libraries correlation manifest (target.rootPath correlation.downloadRoot) observed
        state ∧
      (∀ relative file, manifest.lookup relative = some file → file.selected = true →
        relative ∈ state.found) ∧
      listed = ⟨state.files, state.paths⟩ := by
  simp only [inventory, fail, bind_eq_ok, mapError_eq_ok, ite_error_eq_ok] at hinventory
  obtain ⟨-, scope, hscope, manifest, hbuild, ⟨⟩, -, ⟨⟩, -, observed, hwalk, hassemble⟩ := hinventory
  rw [rootPath_of_resolveInventoryScope hscope] at hbuild hassemble
  obtain ⟨state, hcollected, hfound, hlisted⟩ := assembleInventory_eq_ok hassemble
  exact ⟨manifest, observed, state, built_of_buildManifest hbuild,
    plainElement_of_walkDir hwalk, hcollected, hfound, hlisted⟩

/-- Of the files that are listed, one is the file of the manifest. -/
theorem filter_of_selected {manifest : Manifest} {root : Text} {state : Assembling}
    (hbuilt : Built correlation root manifest)
    (hplain : ∀ file ∈ observed, ∀ element ∈ file.path.splitOn slash, PlainElement element)
    (hcollected : Collected libraries correlation manifest root observed state)
    (hfound : ∀ relative file, manifest.lookup relative = some file → file.selected = true →
      relative ∈ state.found) {file : DownloadFile} (hfile : file ∈ correlation.download.files)
    (hselected : file.selected = true) :
    (state.files.filter fun listed => absolutePath root listed = file.path).map
        (fun listed => (listed.fingerprint.sizeBytes, listed.downloadFile)) =
      [(file.lengthBytes, some (manifestReference file))] := by
  obtain ⟨relative, hlookup, hrelative⟩ := hbuilt.listed file hfile
  obtain ⟨habs, hpath, hrelativePlain⟩ := manifestRelativePath_eq_ok hrelative
  obtain ⟨listed, hlisted, expected, hexpected, hcomponents, hsize, hreference⟩ :=
    hcollected.found relative (hfound relative file hlookup hselected)
  cases hlookup.symm.trans hexpected
  have hjoined (text : Text) : [slash].intercalate (text.splitOn slash) = text :=
    List.intercalate_splitOn slash
  -- The path of a listed file determines its name, and names are distinct.
  have hunique : ∀ other ∈ state.files, absolutePath root other = file.path ↔ other = listed := by
    intro other hother
    constructor
    · intro hsame
      obtain ⟨seen, hseen, hseenComponents, hseenID⟩ := hcollected.files other hother
      obtain ⟨own, -, hownComponents, hownID⟩ := hcollected.files listed hlisted
      have hown : own.path = relative := by
        rw [← hjoined own.path, ← hownComponents, hcomponents, hjoined]
      rw [absolutePath, hseenComponents, hjoined, hpath] at hsame
      have hsamePath := pathJoin_inj habs (hplain seen hseen) hrelativePlain hsame
      refine List.inj_on_of_nodup_map hcollected.ids hother hlisted ?_
      rw [hseenID, hownID, hsamePath, hown]
    · rintro rfl
      rw [absolutePath, hcomponents, hjoined, hpath]
  have hfilter : (state.files.filter fun other => absolutePath root other = file.path) =
      [listed] := by
    refine List.perm_singleton.mp ((List.perm_ext_iff_of_nodup
      (hcollected.ids.of_map.filter _) (List.nodup_singleton _)).mpr fun other => ?_)
    rw [List.mem_filter, List.mem_singleton, decide_eq_true_iff]
    constructor
    · rintro ⟨hother, hsame⟩
      exact (hunique other hother).mp hsame
    · rintro rfl
      exact ⟨hlisted, (hunique other hlisted).mpr rfl⟩
  rw [hfilter, List.map_singleton, hsize, hreference]

/-- Files that repairs published do not change the inventory of a download. And whatever is
accepted is listed under distinct names, with every selected file of the manifest once and in
its size, and with every name at the path of its file. -/
theorem inventory_ignores_published (libraries : Libraries) (correlation : DownloadCorrelation) :
    (∀ artifactID, ∀ extension ∈ publishedExtensions,
      PublishedForm (publishedName libraries artifactID extension)) ∧
    (∀ (tree enlarged : DirectoryTree) (added : List Entry),
      enlarged.entries.Perm (tree.entries ++ added) →
      (∀ entry ∈ added, IsPublishedRepair correlation entry) →
      inventory libraries correlation (.directory enlarged) =
        inventory libraries correlation (.directory tree)) ∧
    ∀ (target : Target) (listed : FileInventory),
      inventory libraries correlation target = .ok listed →
      (listed.files.map InventoryFile.id).Nodup ∧
      (∀ file ∈ correlation.download.files, file.selected = true →
        (listed.files.filter fun other =>
          absolutePath (target.rootPath correlation.downloadRoot) other = file.path).map
          (fun other => (other.fingerprint.sizeBytes, other.downloadFile)) =
            [(file.lengthBytes, some (manifestReference file))]) ∧
      listed.paths = listed.files.map fun file =>
        ⟨file.id, absolutePath (target.rootPath correlation.downloadRoot) file⟩ := by
  refine ⟨?form, ?enlarged, ?accepted⟩
  case form =>
    intro artifactID extension hextension
    exact publishedForm_publishedName libraries artifactID hextension
  case enlarged =>
    intro tree enlarged added hperm hpublished
    exact inventory_enlarged libraries hperm hpublished
  case accepted =>
    intro target listed hinventory
    obtain ⟨manifest, observed, state, hbuilt, hplain, hcollected, hfound, rfl⟩ :=
      inventory_eq_ok hinventory
    refine ⟨hcollected.ids, ?_, hcollected.paths⟩
    intro file hfile hselected
    exact filter_of_selected hbuilt hplain hcollected hfound hfile hselected

/-! ### A repair beside its source -/

def movieCorrelation : DownloadCorrelation where
  radarr := ⟨1, some 7, bytes "Movie", bytes "completed", bytes "warning", bytes "importBlocked",
    [], [], bytes "nzo", bytes "/movie"⟩
  download := ⟨bytes "transmission", bytes "torrent", bytes "nzo", bytes "Movie", true,
    bytes "/movie", [], none, 5, contentManifest,
    [⟨0, true, bytes "/movie/part.ts", 5, 5, true⟩]⟩
  downloadRoot := bytes "/movie"
  rejectionReasons := []

def moviePart : Entry := ⟨[bytes "part.ts"], .regular ⟨0, 1, 5, 0⟩⟩

def movieRepair : Entry :=
  ⟨[publishedName asciiLibraries (bytes "artifact") (bytes ".mkv")], .regular ⟨0, 2, 9, 0⟩⟩

theorem plain_of_movie : ∀ entry ∈ [moviePart, movieRepair], ∀ name ∈ entry.path,
    PlainElement name := by
  have hall : ∀ entry ∈ [moviePart, movieRepair], ∀ name ∈ entry.path,
      name ≠ [] ∧ name ≠ [dot] ∧ name ≠ dotDot ∧ slash ∉ name := by
    decide +kernel
  intro entry hentry name hname
  obtain ⟨hempty, hself, hup, hslash⟩ := hall entry hentry name hname
  exact ⟨hempty, hself, hup, hslash⟩

theorem closed_movie : ∀ entry ∈ [moviePart, movieRepair],
    entry.path ≠ [] ∧ entry.path.dropLast = [] := by
  simp [moviePart, movieRepair]

theorem sorted_movie : [moviePart, movieRepair].Pairwise fun first second =>
    first.path.map byteOrder < second.path.map byteOrder := by
  decide +kernel

/-- Entries at the top are in no directory that is listed. -/
theorem closed_of_top {entries : List Entry}
    (htop : ∀ entry ∈ entries, entry.path ≠ [] ∧ entry.path.dropLast = []) :
    ∀ entry ∈ entries, entry.path ≠ [] ∧ (entry.path.dropLast ≠ [] →
      ∃ parent ∈ entries, parent.path = entry.path.dropLast ∧ parent.node = .directory) :=
  fun entry hmem => ⟨(htop entry hmem).1, fun hparent => absurd (htop entry hmem).2 hparent⟩

theorem mem_of_moviePart {entry : Entry} (hmem : entry ∈ [moviePart]) :
    entry ∈ [moviePart, movieRepair] :=
  List.mem_of_mem_take (i := 1) hmem

def movieTree : DirectoryTree where
  entries := [moviePart]
  sorted := List.pairwise_singleton _ _
  closed := closed_of_top fun entry hmem => closed_movie entry (mem_of_moviePart hmem)
  plain := fun entry hmem => plain_of_movie entry (mem_of_moviePart hmem)

def repairedTree : DirectoryTree where
  entries := [moviePart, movieRepair]
  sorted := sorted_movie
  closed := closed_of_top closed_movie
  plain := plain_of_movie

/-- With its repair beside it, the part of a movie is still all that is listed. -/
theorem repairedTree_listed :
    ((inventory asciiLibraries movieCorrelation (.directory repairedTree)).toOption.map
      fun listed => listed.files.map fun file => file.fingerprint.sizeBytes) = some [5] := by
  have hpublished : ∀ entry ∈ [movieRepair], IsPublishedRepair movieCorrelation entry := by
    intro entry hmem
    obtain rfl := List.mem_singleton.mp hmem
    refine ⟨⟨_, rfl⟩, ⟨_, rfl, publishedForm_publishedName _ _ (by decide)⟩, by decide +kernel⟩
  obtain ⟨-, henlarged, -⟩ := inventory_ignores_published asciiLibraries movieCorrelation
  rw [henlarged movieTree repairedTree [movieRepair] (List.Perm.refl _) hpublished]
  decide +kernel

end NixConfig.MediaRepair.Filesystem
