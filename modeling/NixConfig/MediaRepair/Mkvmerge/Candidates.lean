/-
# Playlists of a Blu-ray disc

A playlist of a disc is a file below `BDMV/PLAYLIST` with a numbered name.
`mkvmerge` says how long it plays and which clips it names; it is a candidate
if it plays long enough to be a feature and all of its clips are files of the
download, beside it on the disc.
-/

import NixConfig.Data.Decimal
import NixConfig.Data.Index
import NixConfig.Data.Paths
import NixConfig.Data.Sorting
import NixConfig.MediaRepair.CaseBuilder.Assemble

namespace NixConfig.MediaRepair.Mkvmerge

open Data Semantics
open Contracts (Libraries)
open Controller
open CaseBuilder (BluRayCandidate Track)

/-! ## Identification -/

structure Playlist where
  durationMS : Int
  chapters : Int
  clipPaths : List Text
  tracks : List Track

structure Target where
  path : Text
  expectedFingerprint : Text

/-- What identifies playlists; it may fail. -/
abbrev Identifier (ε : Type) := Target → Except ε Playlist

inductive ListError (ε : Type)
  | identifierRequired
  | duplicateFileID (fileID : FileID)
  | noCleanAbsolutePath (fileID : FileID)
  | duplicatePath (path : Text)
  | filesAndPathsDiffer
  | tooManyPlaylists
  | context
  | identify (path : Text) (cause : ε)

/-! ## Names and paths -/

def minimumFeatureMS : Int := 20 * 60 * 1000

def maximumPlaylists : Nat := 128

def cleanAbsolute (path : Text) : Bool := path ≠ [] && isAbs path && pathClean path == path

def numberedFile (name extension : Text) : Bool :=
  if name.length ≠ 5 + extension.length ∨ !extension.isSuffixOf name then false
  else (runes (name.take 5)).all fun digit => digit.any Char.isDigit

def numberedPlaylist (name : Text) : Bool := numberedFile name (bytes ".mpls")

def numberedClip (name : Text) : Bool := numberedFile name (bytes ".m2ts")

def available (file : InventoryFile) : Bool :=
  if file.fingerprint.sizeBytes ≤ 0 then false
  else
    match file.downloadFile with
    | none => true
    | some downloadFile =>
      downloadFile.selected && downloadFile.lengthBytes == file.fingerprint.sizeBytes &&
        downloadFile.bytesCompleted == file.fingerprint.sizeBytes

/-! ## Candidates -/

section Listing

variable {ε : Type}

def indexPaths (inventory : FileInventory) : Except (ListError ε) (List (FileID × Text)) :=
  inventory.paths.foldlM (fun paths mapping =>
    if (paths.lookup mapping.fileID).isSome then .error (.duplicateFileID mapping.fileID)
    else .ok (paths ++ [(mapping.fileID, mapping.absolutePath)])) []

def indexFiles (inventory : FileInventory) (paths : List (FileID × Text)) :
    Except (ListError ε) (List (Text × InventoryFile)) :=
  inventory.files.foldlM (fun files file =>
    match paths.lookup file.id with
    | none => .error (.noCleanAbsolutePath file.id)
    | some path =>
      if !cleanAbsolute path then .error (.noCleanAbsolutePath file.id)
      else if (files.lookup path).isSome then .error (.duplicatePath path)
      else .ok (files ++ [(path, file)])) []

def inventoryIndex (inventory : FileInventory) :
    Except (ListError ε) (List (Text × InventoryFile) × List (FileID × Text)) := do
  let paths ← indexPaths inventory
  let files ← indexFiles inventory paths
  if files.length ≠ paths.length then .error .filesAndPathsDiffer
  else pure (files, paths)

/-- A numbered file in `BDMV/PLAYLIST`. The components are only read where there are enough. -/
def isPlaylist (file : InventoryFile) : Bool :=
  let parts := file.pathComponents
  if parts.length < 3 then false
  else parts[parts.length - 3]? == some (bytes "BDMV") &&
    parts[parts.length - 2]? == some (bytes "PLAYLIST") &&
    parts[parts.length - 1]?.any numberedPlaylist

/-- The key that playlists are sorted by. -/
def joinedComponents (file : InventoryFile) : List Nat :=
  byteOrder ([slash].intercalate file.pathComponents)

/-- The playlists of an index. Its entries come in any order before they are sorted. -/
def playlistFiles (sorting : Sorting joinedComponents) (files : List (Text × InventoryFile)) :
    List InventoryFile :=
  sorting.sort ((files.map Prod.snd).filter isPlaylist)

/-- The file of a clip, if it is a clip of the disc and complete. -/
def inventoryClip (streamDir : Text) (files : List (Text × InventoryFile)) (path : Text) :
    Option FileID :=
  if !cleanAbsolute path || pathDir path != streamDir || !numberedClip (pathBase path) then none
  else
    match files.lookup path with
    | none => none
    | some file => if available file then some file.id else none

def inventoryClips (playlistPath : Text) (clipPaths : List Text)
    (files : List (Text × InventoryFile)) : Option (List FileID) :=
  let streamDir := pathJoin (pathDir (pathDir playlistPath)) (bytes "STREAM")
  match clipPaths.mapM (inventoryClip streamDir files) with
  | none => none
  | some clipIDs => if clipIDs.isEmpty then none else some clipIDs

variable (libraries : Libraries) (identifier : Identifier ε)

/-- The candidate that a playlist is, if it is one. The path of a file that has none is the
empty text. -/
def featurePlaylist (files : List (Text × InventoryFile)) (paths : List (FileID × Text))
    (file : InventoryFile) : Except (ListError ε) (Option BluRayCandidate) :=
  if !available file then .ok none
  else
    let path := (paths.lookup file.id).getD []
    match identifier ⟨path, file.fingerprint.strictFingerprint libraries⟩ with
    | .error cause => .error (.identify path cause)
    | .ok details =>
      if details.durationMS < minimumFeatureMS then .ok none
      else
        match inventoryClips path details.clipPaths files with
        | none => .ok none
        | some clipIDs => .ok (some {
            playlistFileID := file.id
            clipFileIDs := clipIDs
            durationMS := details.durationMS
            chapters := details.chapters
            clipPaths := details.clipPaths
            tracks := details.tracks })

/-- The loop over the playlists; the context may end before any of them. -/
def featurePlaylists (ended : InventoryFile → Bool) (files : List (Text × InventoryFile))
    (paths : List (FileID × Text)) :
    List InventoryFile → Except (ListError ε) (List BluRayCandidate)
  | [] => .ok []
  | file :: rest =>
    if ended file then .error .context
    else do
      let found ← featurePlaylist libraries identifier files paths file
      let others ← featurePlaylists ended files paths rest
      pure (found.toList ++ others)

def listFeaturePlaylists (sorting : Sorting joinedComponents) (ended : InventoryFile → Bool)
    (inventory : FileInventory) (identifier : Option (Identifier ε)) :
    Except (ListError ε) (List BluRayCandidate) :=
  match identifier with
  | none => .error .identifierRequired
  | some identifier => do
    let (files, paths) ← inventoryIndex inventory
    let playlists := playlistFiles sorting files
    if playlists.length > maximumPlaylists then .error .tooManyPlaylists
    else featurePlaylists libraries identifier ended files paths playlists

end Listing

/-! ## What an index knows -/

/-- An index of an inventory: every file under its one path, which is clean and absolute, and
no path twice. -/
structure Indexed (inventory : FileInventory) (files : List (Text × InventoryFile))
    (paths : List (FileID × Text)) : Prop where
  paths_eq : paths = inventory.paths.map fun mapping => (mapping.fileID, mapping.absolutePath)
  paths_nodup : (inventory.paths.map FilePathMapping.fileID).Nodup
  files_eq : files.map Prod.snd = inventory.files
  lookup_path : ∀ entry ∈ files, paths.lookup entry.2.id = some entry.1
  clean : ∀ entry ∈ files, cleanAbsolute entry.1 = true
  files_nodup : (files.map Prod.fst).Nodup

section Indexes

variable {ε : Type} {inventory : FileInventory} {files : List (Text × InventoryFile)}
  {paths : List (FileID × Text)}

theorem indexPaths_eq_ok (hpaths : indexPaths (ε := ε) inventory = .ok paths) :
    paths = inventory.paths.map (fun mapping => (mapping.fileID, mapping.absolutePath)) ∧
      (inventory.paths.map FilePathMapping.fileID).Nodup := by
  -- After any number of mappings the index has one entry for each of them.
  refine foldlM_invariant (fun done paths =>
    paths = done.map (fun mapping => (mapping.fileID, mapping.absolutePath)) ∧
      (done.map FilePathMapping.fileID).Nodup) ⟨rfl, List.nodup_nil⟩ ?_ hpaths
  rintro done acc mapping next ⟨rfl, hnodup⟩ hnext
  split_ifs at hnext with hfresh
  cases hnext
  have hfresh : mapping.fileID ∉ done.map FilePathMapping.fileID := by
    simpa using not_mem_keys_of_lookup hfresh
  refine ⟨by simp, ?_⟩
  rw [List.map_append, List.map_singleton, ← List.concat_eq_append]
  exact hnodup.concat hfresh

theorem indexFiles_eq_ok (hfiles : indexFiles (ε := ε) inventory paths = .ok files) :
    files.map Prod.snd = inventory.files ∧
      (∀ entry ∈ files, paths.lookup entry.2.id = some entry.1 ∧ cleanAbsolute entry.1 = true) ∧
      (files.map Prod.fst).Nodup := by
  refine foldlM_invariant (fun done files => files.map Prod.snd = done ∧
    (∀ entry ∈ files, paths.lookup entry.2.id = some entry.1 ∧ cleanAbsolute entry.1 = true) ∧
      (files.map Prod.fst).Nodup) ⟨rfl, by simp, List.nodup_nil⟩ ?_ hfiles
  rintro done acc file next ⟨rfl, hentries, hnodup⟩ hnext
  split at hnext
  · cases hnext
  rename_i path hlookup
  split_ifs at hnext with hclean hfresh
  cases hnext
  refine ⟨by simp, List.forall_mem_append.mpr ⟨hentries, List.forall_mem_singleton.mpr
    ⟨hlookup, by simpa using hclean⟩⟩, ?_⟩
  rw [List.map_append, List.map_singleton, ← List.concat_eq_append]
  exact hnodup.concat (not_mem_keys_of_lookup hfresh)

theorem inventoryIndex_eq_ok (hindex : inventoryIndex (ε := ε) inventory = .ok (files, paths)) :
    Indexed inventory files paths := by
  simp only [inventoryIndex, bind_eq_ok, ite_error_eq_ok] at hindex
  obtain ⟨indexed, hpaths, found, hfiles, -, ⟨⟩⟩ := hindex
  obtain ⟨hpathsEq, hpathsNodup⟩ := indexPaths_eq_ok hpaths
  obtain ⟨hfilesEq, hentries, hfilesNodup⟩ := indexFiles_eq_ok hfiles
  exact ⟨hpathsEq, hpathsNodup, hfilesEq, fun entry hmem => (hentries entry hmem).1,
    fun entry hmem => (hentries entry hmem).2, hfilesNodup⟩

/-- Files with one identifier would have one path, so identifiers are distinct as well. -/
theorem Indexed.fileIDs_nodup (hindexed : Indexed inventory files paths) :
    (inventory.files.map InventoryFile.id).Nodup := by
  rw [← hindexed.files_eq, List.map_map]
  refine List.Nodup.map_on ?_ (List.Nodup.of_map _ hindexed.files_nodup)
  intro entry hentry other hother hid
  have hpath := hindexed.lookup_path entry hentry
  rw [show entry.2.id = other.2.id from hid, hindexed.lookup_path other hother] at hpath
  exact List.inj_on_of_nodup_map hindexed.files_nodup hentry hother (Option.some.inj hpath).symm

/-- A file of an index is one of the inventory, with the path it is mapped to. -/
theorem Indexed.mem_inventory (hindexed : Indexed inventory files paths) {path : Text}
    {file : InventoryFile} (hmem : (path, file) ∈ files) :
    file ∈ inventory.files ∧ ⟨file.id, path⟩ ∈ inventory.paths := by
  constructor
  · rw [← hindexed.files_eq]
    exact List.mem_map_of_mem hmem
  · have hlookup : (file.id, path) ∈ paths := mem_of_lookup (hindexed.lookup_path _ hmem)
    rw [hindexed.paths_eq] at hlookup
    obtain ⟨mapping, hmapping, hsame⟩ := List.mem_map.mp hlookup
    obtain ⟨hid, hpath⟩ := Prod.mk.inj hsame
    rw [← hid, ← hpath]
    exact hmapping

end Indexes

/-! ## What a candidate is -/

/-- Where the clips of a playlist are. -/
def streamDirectory (playlistPath : Text) : Text :=
  pathJoin (pathDir (pathDir playlistPath)) (bytes "STREAM")

/-- A complete file of an inventory and the path it is mapped to. -/
structure IsSource (inventory : FileInventory) (fileID : FileID) (path : Text)
    (file : InventoryFile) : Prop where
  mem : file ∈ inventory.files
  id_eq : file.id = fileID
  mapped : ⟨fileID, path⟩ ∈ inventory.paths
  clean : cleanAbsolute path = true
  complete : available file = true

/-- A clip of the disc that a playlist is on. -/
structure IsClip (inventory : FileInventory) (playlistPath : Text) (clipID : FileID)
    (clipPath : Text) : Prop where
  source : ∃ file, IsSource inventory clipID clipPath file
  directory : pathDir clipPath = streamDirectory playlistPath
  numbered : numberedClip (pathBase clipPath) = true

/-- A playlist of the inventory with its clips, in their order. -/
structure IsFeature (inventory : FileInventory) (candidate : BluRayCandidate)
    (playlistPath : Text) (file : InventoryFile) : Prop where
  source : IsSource inventory candidate.playlistFileID playlistPath file
  playlist : isPlaylist file = true
  clips : List.Forall₂ (IsClip inventory playlistPath) candidate.clipFileIDs candidate.clipPaths

section Candidates

variable {ε : Type} {libraries : Libraries} {identifier : Identifier ε}
  {inventory : FileInventory} {files : List (Text × InventoryFile)} {paths : List (FileID × Text)}

theorem isClip_of_inventoryClip (hindexed : Indexed inventory files paths)
    {playlistPath clipPath : Text} {clipID : FileID}
    (hclip : inventoryClip (streamDirectory playlistPath) files clipPath = some clipID) :
    IsClip inventory playlistPath clipID clipPath := by
  simp only [inventoryClip, Option.ite_none_left_eq_some, Bool.or_eq_true, Bool.not_eq_true',
    bne_iff_ne, not_or, not_not, Bool.not_eq_false] at hclip
  obtain ⟨hplace, hclip⟩ := hclip
  split at hclip
  · cases hclip
  rename_i file hlookup
  obtain ⟨hcomplete, ⟨⟩⟩ := Option.ite_none_right_eq_some.mp hclip
  obtain ⟨hmem, hmapped⟩ := hindexed.mem_inventory (mem_of_lookup hlookup)
  exact ⟨⟨file, hmem, rfl, hmapped, hplace.1.1, hcomplete⟩, hplace.1.2, hplace.2⟩

variable {candidate : BluRayCandidate} {ended : InventoryFile → Bool}
  {candidates : List BluRayCandidate}

theorem isFeature_of_featurePlaylist (hindexed : Indexed inventory files paths) {path : Text}
    {file : InventoryFile} (hmem : (path, file) ∈ files) (hplaylist : isPlaylist file = true)
    (hfeature : featurePlaylist libraries identifier files paths file = .ok (some candidate)) :
    IsFeature inventory candidate path file := by
  have hlookup : paths.lookup file.id = some path := hindexed.lookup_path _ hmem
  rw [featurePlaylist] at hfeature
  split at hfeature
  · cases hfeature
  rename_i hcomplete
  simp only [hlookup, Option.getD_some] at hfeature
  split at hfeature
  · cases hfeature
  rename_i details hidentified
  split at hfeature
  · cases hfeature
  split at hfeature
  · cases hfeature
  rename_i clipIDs hclips
  cases hfeature
  rw [inventoryClips] at hclips
  split at hclips
  · cases hclips
  rename_i found hfound
  split_ifs at hclips
  cases hclips
  obtain ⟨hfile, hmapped⟩ := hindexed.mem_inventory hmem
  refine ⟨⟨hfile, rfl, hmapped, hindexed.clean _ hmem, by simpa using hcomplete⟩,
    hplaylist, ?_⟩
  exact (forall₂_of_mapM hfound).imp fun _ _ => isClip_of_inventoryClip hindexed

theorem mem_featurePlaylists {playlists : List InventoryFile}
    (hlist : featurePlaylists libraries identifier ended files paths playlists = .ok candidates)
    (hmem : candidate ∈ candidates) :
    ∃ file ∈ playlists, featurePlaylist libraries identifier files paths file =
      .ok (some candidate) := by
  induction playlists generalizing candidates with
  | nil =>
    cases hlist
    cases hmem
  | cons file rest ih =>
    rw [featurePlaylists] at hlist
    split_ifs at hlist
    obtain ⟨found, hfound, hlist⟩ := bind_eq_ok.mp hlist
    obtain ⟨others, hothers, hlist⟩ := bind_eq_ok.mp hlist
    cases hlist
    rcases List.mem_append.mp hmem with hfirst | hlater
    · obtain rfl := Option.mem_toList.mp hfirst
      exact ⟨file, List.mem_cons_self, hfound⟩
    · obtain ⟨other, hother, hcandidate⟩ := ih hothers hlater
      exact ⟨other, List.mem_cons_of_mem file hother, hcandidate⟩

/-- Files and paths of a listed inventory have distinct identifiers, and every candidate is a
playlist of it. -/
theorem listFeaturePlaylists_eq_ok {sorting : Sorting joinedComponents}
    {identifier : Option (Identifier ε)}
    (hlist : listFeaturePlaylists libraries sorting ended inventory identifier = .ok candidates) :
    (inventory.files.map InventoryFile.id).Nodup ∧
      (inventory.paths.map FilePathMapping.fileID).Nodup ∧
      ∀ candidate ∈ candidates, ∃ path file, IsFeature inventory candidate path file := by
  cases identifier with
  | none => cases hlist
  | some identifier =>
    obtain ⟨⟨files, paths⟩, hindex, hlist⟩ := bind_eq_ok.mp hlist
    have hindexed := inventoryIndex_eq_ok hindex
    refine ⟨hindexed.fileIDs_nodup, hindexed.paths_nodup, ?_⟩
    dsimp only at hlist
    split_ifs at hlist
    intro candidate hmem
    obtain ⟨file, hfile, hfeature⟩ := mem_featurePlaylists hlist hmem
    rw [playlistFiles, (sorting.perm _).mem_iff, List.mem_filter] at hfile
    obtain ⟨⟨path, file⟩, hentry, rfl⟩ := List.mem_map.mp hfile.1
    exact ⟨path, file, isFeature_of_featurePlaylist hindexed hentry hfile.2 hfeature⟩

end Candidates

/-! ## The path of a playlist -/

theorem numberedFile_eq_true {name extension : Text} (hname : numberedFile name extension = true) :
    ∃ digits : List (Fin 10), digits.length = 5 ∧ name = digits.map digitByte ++ extension := by
  rw [numberedFile] at hname
  split_ifs at hname with hform
  simp only [not_or, Decidable.not_not, Bool.not_eq_true', Bool.not_eq_false,
    List.isSuffixOf_iff_suffix] at hform
  obtain ⟨hlength, front, rfl⟩ := hform
  obtain ⟨digits, hrunes⟩ := all_isDigit.mp hname
  have hfront : front.length = 5 := by
    rw [List.length_append] at hlength
    omega
  rw [List.take_append_of_le_length hfront.ge, List.take_of_length_le hfront.le] at hrunes
  have hbytes := eq_utf8_of_runes hrunes
  rw [utf8_digits] at hbytes
  subst hbytes
  exact ⟨digits, by simpa using hfront, rfl⟩

theorem plainElement_of_numberedPlaylist {name : Text} (hname : numberedPlaylist name = true) :
    PlainElement name := by
  obtain ⟨digits, hlength, rfl⟩ := numberedFile_eq_true hname
  have hlong : (digits.map digitByte ++ bytes ".mpls").length = 10 := by
    rw [List.length_append, List.length_map, hlength]
    rfl
  have hdigit : ∀ digit, digitByte digit ≠ slash := by decide
  have hextension : slash ∉ bytes ".mpls" := by decide
  refine ⟨?_, ?_, ?_, ?_⟩
  · rintro hempty
    rw [hempty] at hlong
    cases hlong
  · rintro hdot
    rw [hdot] at hlong
    cases hlong
  · rintro hdots
    rw [hdots] at hlong
    cases hlong
  · rw [List.mem_append, not_or]
    exact ⟨by simp [hdigit], hextension⟩

/-- The last three components of a playlist. -/
theorem isPlaylist_eq_true {file : InventoryFile} (hplaylist : isPlaylist file = true) :
    ∃ front name, numberedPlaylist name = true ∧
      file.pathComponents = front ++ [bytes "BDMV", bytes "PLAYLIST", name] := by
  rw [isPlaylist] at hplaylist
  split_ifs at hplaylist with hlength
  obtain ⟨disc, directory, name, hlast⟩ : ∃ disc directory name,
      file.pathComponents.drop (file.pathComponents.length - 3) = [disc, directory, name] :=
    List.length_eq_three.mp (by rw [List.length_drop]; omega)
  have hparts := (List.take_append_drop (file.pathComponents.length - 3) file.pathComponents).symm
  rw [hlast] at hparts
  obtain ⟨front, hfront⟩ : ∃ front,
      front = file.pathComponents.take (file.pathComponents.length - 3) := ⟨_, rfl⟩
  rw [← hfront] at hparts
  have hnames : (disc = bytes "BDMV" ∧ directory = bytes "PLAYLIST") ∧
      numberedPlaylist name = true := by
    rw [hparts] at hplaylist
    simpa using hplaylist
  obtain ⟨⟨rfl, rfl⟩, hname⟩ := hnames
  exact ⟨front, name, hname, hparts⟩

/-- A playlist whose path is a root followed by its components is in `BDMV/PLAYLIST`. -/
theorem playlistPath_eq {root path : Text} {file : InventoryFile}
    (hplaylist : isPlaylist file = true) (hclean : cleanAbsolute path = true)
    (hpath : path = pathJoin root ([slash].intercalate file.pathComponents)) :
    numberedPlaylist (pathBase path) = true ∧ pathBase (pathDir path) = bytes "PLAYLIST" ∧
      pathBase (pathDir (pathDir path)) = bytes "BDMV" := by
  obtain ⟨front, name, hname, hcomponents⟩ := isPlaylist_eq_true hplaylist
  have hplainName := plainElement_of_numberedPlaylist hname
  have hplainDisc : PlainElement (bytes "BDMV") := by constructor <;> decide
  have hplainDirectory : PlainElement (bytes "PLAYLIST") := by constructor <;> decide
  have hplain : ∀ element ∈ [bytes "BDMV", bytes "PLAYLIST", name], PlainElement element := by
    simp [hplainName, hplainDisc, hplainDirectory]
  have habs : isAbs path = true := by
    rw [cleanAbsolute, Bool.and_eq_true, Bool.and_eq_true] at hclean
    exact hclean.1.2
  rw [hpath, hcomponents] at habs
  obtain ⟨elements, helements, hrooted⟩ :=
    exists_rooted_of_pathJoin (List.cons_ne_nil _ _) hplain habs
  have hdisc : ∀ element ∈ elements ++ [bytes "BDMV"], PlainElement element :=
    List.forall_mem_append.mpr ⟨helements, List.forall_mem_singleton.mpr hplainDisc⟩
  have hdirectory : ∀ element ∈ (elements ++ [bytes "BDMV"]) ++ [bytes "PLAYLIST"],
      PlainElement element :=
    List.forall_mem_append.mpr ⟨hdisc, List.forall_mem_singleton.mpr hplainDirectory⟩
  have hpath : path = rooted (((elements ++ [bytes "BDMV"]) ++ [bytes "PLAYLIST"]) ++ [name]) := by
    rw [hpath, hcomponents, hrooted]
    simp
  rw [hpath, pathBase_rooted hplainName, pathDir_rooted hplainName hdirectory,
    pathBase_rooted hplainDirectory, pathDir_rooted hplainDirectory hdisc,
    pathBase_rooted hplainDisc]
  exact ⟨hname, rfl, rfl⟩

end NixConfig.MediaRepair.Mkvmerge
