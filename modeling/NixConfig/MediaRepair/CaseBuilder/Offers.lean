/-
# What a case offers

Every capability of an assembled case is named by the digest of the values that
identify it, and the first of the values says what kind of capability it is. So
where no two of the hashed texts have one digest, a Blu-ray capability is found
under its name, and it is the one that was bound to its playlist.

The schema bounds what the case says: the sizes of files, the runtime of the
movie and the length of a disc title.
-/

import NixConfig.Data.Index
import NixConfig.Data.JsonReading
import NixConfig.MediaRepair.CaseBuilder.Identity

namespace NixConfig.MediaRepair.CaseBuilder

open Data Semantics
open Contracts
open Controller hiding Download

/-! ## Taking an assembly apart -/

/-- What an assembly was made of. -/
structure Assembled (libraries : Libraries) (observation : Observation) (assembly : Assembly)
    (inventoryFiles : List InventoryFile) (candidateFileIDs : List Text)
    (manualOffers bluRayOffers dvdOffers : List Capability) : Prop where
  indexed : indexFiles observation.inventory = .ok inventoryFiles
  mapped : ∃ paths probes, mapFiles libraries paths probes
    (classifyMediaFiles libraries observation.inventory) =
      .ok (candidateFileIDs, assembly.request.files)
  manualImports : ∃ found, bindManualImportCapabilities libraries found observation.history =
    .ok (manualOffers, assembly.localSnapshot.manualImportBindings)
  bluRay : bindBluRayCapabilities libraries observation.bluRayPlaylists inventoryFiles =
    .ok bluRayOffers
  dvd : bindDVDCapabilities libraries observation.dvdTitles inventoryFiles = .ok dvdOffers
  capabilities : assembly.request.capabilities =
    joinCapabilities libraries candidateFileIDs ++ manualOffers ++ bluRayOffers ++ dvdOffers
  movie : assembly.request.radarr.movie = observation.movie.map mapMovie
  caseID : assembly.localSnapshot.caseID = assembly.request.caseID
  observed : assembly.localSnapshot.observation = observation
  valid : CaseSchema.repairCase (assembly.request.json.map chars) = true

variable {libraries : Libraries} {properties : List Schema.Property}
  {members : List (String × Json Text)}

theorem exists_assembled {observation : Observation} {assembly : Assembly}
    (hassemble : assemble libraries observation = .ok assembly) :
    ∃ inventoryFiles candidateFileIDs manualOffers bluRayOffers dvdOffers,
      Assembled libraries observation assembly inventoryFiles candidateFileIDs manualOffers
        bluRayOffers dvdOffers := by
  simp only [assemble, finish, buildRequest, indexInventory, mapRadarr, fail, bind_eq_ok,
    mapError_eq_ok, ite_error_eq_ok] at hassemble
  obtain ⟨_, ⟨-, -, -, _, ⟨indexed, hindexed, mappings, -, ⟨⟩⟩, probes, -,
    ⟨candidateFileIDs, files⟩, hfiles, -, found, -, _, ⟨history, -, ⟨⟩⟩,
    ⟨manualOffers, bindings⟩, hmanual, bluRayOffers, hbluRay, dvdOffers, hdvd, ⟨⟩⟩, ⟨⟩, -, caseID,
    -, encoded, hencode, ⟨⟩⟩ := hassemble
  exact ⟨indexed, candidateFileIDs, manualOffers, bluRayOffers, dvdOffers, hindexed,
    ⟨mappings, probes, hfiles⟩, ⟨found, hmanual⟩, hbluRay, hdvd, rfl, rfl, rfl, rfl,
    (encodeCase_eq_ok hencode).2.2⟩

/-- The index has the files of the inventory. -/
theorem indexFiles_eq_ok {inventory : FileInventory} {files : List InventoryFile}
    (hindex : indexFiles inventory = .ok files) : files = inventory.files := by
  refine foldlM_invariant (fun done indexed => indexed = done) rfl ?_ hindex
  rintro done acc file next rfl hnext
  simp only [fail, ite_error_eq_ok] at hnext
  exact (Except.ok.inj hnext.2.2).symm

theorem file_classifyMediaFile (libraries : Libraries) (file : InventoryFile) :
    (classifyMediaFile libraries file).file = file := by
  rw [classifyMediaFile]
  cases file.downloadFile with
  | none => rfl
  | some downloadFile =>
    dsimp only
    split_ifs <;> rfl

/-- Every file of the inventory is shown with its size. -/
theorem sizeBytes_of_mapFiles {paths : List (FileID × Text)}
    {probes : List (FileID × MediaProbeOutcome)} {assessments : List MediaFileAssessment}
    {candidates : List Text} {files : List FileElement}
    (hmap : mapFiles libraries paths probes assessments = .ok (candidates, files)) :
    files.map FileElement.sizeBytes =
      assessments.map fun assessment => assessment.file.fingerprint.sizeBytes := by
  refine foldlM_invariant (fun done (acc : List Text × List FileElement) =>
    acc.2.map FileElement.sizeBytes =
      done.map fun assessment => assessment.file.fingerprint.sizeBytes) rfl ?_ hmap
  rintro done ⟨found, acc⟩ assessment next hsizes hnext
  simp only [fail, ite_error_eq_ok] at hnext
  obtain ⟨-, hnext⟩ := hnext
  split at hnext
  · cases hnext
  simp only [mapFile, fail, context, bind_eq_ok, mapError_eq_ok, ite_error_eq_ok] at hnext
  obtain ⟨_, ⟨probe, -, -, -, ⟨⟩⟩, ⟨⟩⟩ := hnext
  rw [List.map_append, List.map_append, hsizes, List.map_singleton, List.map_singleton]

/-! ## What the schema bounds -/

/-- A member of an accepted object, before its strings are read. -/
theorem property_of_json
    (hobject : Schema.object properties ((Json.object members).map chars) = true)
    (member : String × Json Text) (hmember : member ∈ members) :
    ∃ property ∈ properties, property.name = member.1 ∧
      property.schema (member.2.map chars) = true := by
  rw [Json.map_object] at hobject
  have hread : (member.1, member.2.map chars) ∈
      members.map fun member => (member.1, member.2.map chars) :=
    List.mem_map_of_mem hmember
  exact Schema.property_of_object hobject hread

/-- The property of a name is the only one. -/
theorem schema_of_json (hobject : Schema.object properties ((Json.object members).map chars) = true)
    (hnames : (properties.map Schema.Property.name).Nodup) (name : String) {schema : Schema}
    (hproperty : CaseSchema.required name schema ∈ properties) (value : Json Text)
    (hmember : (name, value) ∈ members) : schema (value.map chars) = true := by
  obtain ⟨property, hmem, hname, haccepts⟩ := property_of_json hobject _ hmember
  obtain rfl := List.inj_on_of_nodup_map hnames hmem hproperty hname
  exact haccepts

theorem items_of_json {items : Schema} {minItems : Nat} {maxItems : Option Nat} {α : Type}
    {json : α → Json Text} {values : List α}
    (harray : Schema.array items minItems maxItems ((Json.array (values.map json)).map chars) = true)
    {value : α} (hmem : value ∈ values) : items ((json value).map chars) = true := by
  rw [Json.map_array] at harray
  exact Schema.items_of_array harray _ (List.mem_map_of_mem (List.mem_map_of_mem hmem))

theorem integer_of_json {minimum maximum value : Int}
    (hinteger : Schema.integer (some minimum) (some maximum) ((Json.number value).map chars) = true) :
    minimum ≤ value ∧ value ≤ maximum := by
  simpa [Schema.integer, Json.map, Json.fold] using hinteger

section Bounds

variable {request : RepairCaseV3}
  (hvalid : CaseSchema.repairCase (request.json.map chars) = true)
include hvalid

theorem sizeBytes_le_of_valid {file : FileElement} (hmem : file ∈ request.files) :
    file.sizeBytes ≤ 9007199254740991 := by
  have hfiles : Schema.array CaseSchema.mediaFile 1 (some 1024)
      ((Json.array (request.files.map FileElement.json)).map chars) = true :=
    schema_of_json hvalid (by decide) "files" (by simp) _ (by simp)
  -- The bound is in the first of the four parts of the schema of a file.
  have hobject := List.all_eq_true.mp (items_of_json hfiles hmem) _ List.mem_cons_self
  have hsize : CaseSchema.byteCount 0 ((Json.number file.sizeBytes).map chars) = true :=
    schema_of_json hobject (by decide) "size_bytes" (by simp) _ (by simp)
  exact (integer_of_json hsize).2

theorem runtimeMinutes_of_valid {movie : MovieClass} {minutes : Int}
    (hmovie : request.radarr.movie = some movie) (hminutes : movie.runtimeMinutes = some minutes) :
    1 ≤ minutes ∧ minutes ≤ 10080 := by
  have hradarr : CaseSchema.radarrEvidence (request.radarr.json.map chars) = true :=
    schema_of_json hvalid (by decide) "radarr" (by simp) _ (by simp)
  have hnullable : Schema.nullable CaseSchema.movie
      ((orNull MovieClass.json request.radarr.movie).map chars) = true :=
    schema_of_json hradarr (by decide) "movie" (by simp) _ (by simp)
  rw [hmovie] at hnullable
  have hobject : CaseSchema.movie (movie.json.map chars) = true := by
    obtain ⟨option, hmem, haccepts⟩ := Schema.exists_of_oneOf hnullable
    rcases List.mem_pair.mp hmem with rfl | rfl
    · exact haccepts
    · cases haccepts
  have hruntime : Schema.nullable (Schema.integer (some 1) (some 10080))
      ((orNull Json.number movie.runtimeMinutes).map chars) = true :=
    schema_of_json hobject (by decide) "runtime_minutes" (by simp) _ (by simp)
  rw [hminutes] at hruntime
  obtain ⟨option, hmem, haccepts⟩ := Schema.exists_of_oneOf hruntime
  rcases List.mem_pair.mp hmem with rfl | rfl
  · exact integer_of_json haccepts
  · cases haccepts

/-- Only titles of discs have a length, and it is bounded. -/
theorem durationMS_of_valid {capability : Capability} {duration : Int}
    (hmem : capability ∈ request.capabilities) (hduration : capability.durationMS = some duration) :
    1 ≤ duration ∧ duration ≤ 604800000 := by
  have hcapabilities : Schema.array (Schema.oneOf [CaseSchema.joinCapability,
      CaseSchema.manualImportCapability, CaseSchema.blurayCapability, CaseSchema.dvdCapability]) 0
      (some 385) ((Json.array (request.capabilities.map Capability.json)).map chars) = true :=
    schema_of_json hvalid (by decide) "capabilities" (by simp) _ (by simp)
  obtain ⟨option, hoption, haccepts⟩ := Schema.exists_of_oneOf (items_of_json hcapabilities hmem)
  have hmember : ("duration_ms", Json.number duration) ∈
      omitNil "duration_ms" Json.number capability.durationMS := by
    simp [hduration, omitNil]
  have hshown : ∀ properties, Schema.object properties (capability.json.map chars) = true →
      "duration_ms" ∈ properties.map Schema.Property.name := by
    intro properties hobject
    obtain ⟨property, hproperty, hname, -⟩ := property_of_json hobject
      ("duration_ms", Json.number duration) (by simp [hmember])
    exact List.mem_map.mpr ⟨property, hproperty, hname⟩
  simp only [List.mem_cons, List.not_mem_nil, or_false] at hoption
  rcases hoption with rfl | rfl | rfl | rfl
  case inl | inr.inl => exact absurd (hshown _ haccepts) (by decide)
  all_goals
    have hlength : Schema.integer (some 1) (some 604800000)
        ((Json.number duration).map chars) = true :=
      schema_of_json haccepts (by decide) "duration_ms" (by simp) _ (by simp [hmember])
    exact integer_of_json hlength

end Bounds

/-! ## The identities of capabilities -/

def joinAction : Text := bytes "join_parts_v1"

def bluRayAction : Text := bytes "remux_bluray_v1"

def joinIdentity (candidateFileIDs : List Text) : List Text := joinAction :: candidateFileIDs

section Identities

variable (libraries : Libraries)

/-- The values that identify a playlist with its clips. -/
def bluRayIdentity (playlist : BluRayCandidate) (file : InventoryFile)
    (clips : List InventoryFile) : List Text :=
  [bluRayAction, playlist.playlistFileID, file.fingerprint.stableFingerprint libraries,
    numeral playlist.durationMS, numeral playlist.chapters] ++ fileIdentities libraries clips

/-- The values that identify a title of a DVD. -/
def dvdIdentity (title : DVDCandidate) (navigation : InventoryFile)
    (sources : List InventoryFile) : List Text :=
  [bytes "remux_dvd_v1", title.navigationFileID, navigation.fingerprint.stableFingerprint libraries,
    numeral title.number, numeral title.titleSet, numeral title.titleInSet,
    numeral title.durationMS, numeral title.chapters] ++ fileIdentities libraries sources

/-- The values that the capabilities of a case are identified by. -/
inductive CapabilityIdentity (assembly : Assembly) : List Text → Prop
  | join {capability : Capability} (hmem : capability ∈ assembly.request.capabilities)
      (haction : capability.action = joinAction) :
      CapabilityIdentity assembly (joinIdentity capability.candidateFileIDS)
  | manualImport {capabilityID : Text} {binding : RadarrManualImportBinding}
      (hmem : (capabilityID, binding) ∈ assembly.localSnapshot.manualImportBindings) :
      CapabilityIdentity assembly (manualImportIdentity libraries binding)
  | bluRay {playlist : BluRayCandidate} {file : InventoryFile} {clips : List InventoryFile}
      (hmem : playlist ∈ assembly.localSnapshot.observation.bluRayPlaylists)
      (hfile : file ∈ assembly.localSnapshot.observation.inventory.files)
      (hclips : clips ⊆ assembly.localSnapshot.observation.inventory.files)
      (hids : file.id = playlist.playlistFileID ∧
        clips.map InventoryFile.id = playlist.clipFileIDs) :
      CapabilityIdentity assembly (bluRayIdentity libraries playlist file clips)
  | dvd {title : DVDCandidate} {navigation : InventoryFile} {sources : List InventoryFile}
      (hmem : title ∈ assembly.localSnapshot.observation.dvdTitles)
      (hnavigation : navigation ∈ assembly.localSnapshot.observation.inventory.files)
      (hsources : sources ⊆ assembly.localSnapshot.observation.inventory.files)
      (hids : navigation.id = title.navigationFileID ∧
        sources.map InventoryFile.id = title.sourceFileIDs) :
      CapabilityIdentity assembly (dvdIdentity libraries title navigation sources)

/-- No two of the texts that were hashed for the capabilities of a case have one digest. -/
def NoCollision (assembly : Assembly) : Prop :=
  Set.InjOn libraries.sum256
    (Set.image (opaqueIDText (bytes "capability"))
      {values | CapabilityIdentity libraries assembly values})

end Identities

section Offers

variable {libraries : Libraries} {observation : Observation} {assembly : Assembly}
  {files : List InventoryFile}

theorem findFile_eq_some {id : FileID} {file : InventoryFile}
    (hfind : findFile files id = some file) : file ∈ files ∧ file.id = id :=
  ⟨List.mem_of_find?_eq_some hfind, by simpa using List.find?_some hfind⟩

theorem findClips_eq_ok {clipFileIDs : List FileID} {clips : List InventoryFile}
    (hclips : findClips files clipFileIDs = .ok clips) :
    clips ⊆ files ∧ clips.map InventoryFile.id = clipFileIDs := by
  have hfound : List.Forall₂ (fun clipID clip => clip ∈ files ∧ clip.id = clipID) clipFileIDs
      clips := by
    refine (mapM_eq_ok hclips).imp ?_
    intro clipID clip hclip
    split at hclip
    · cases hclip
    cases hclip
    exact findFile_eq_some ‹_›
  clear hclips
  induction hfound with
  | nil => simp
  | cons hfirst hrest ih =>
    obtain ⟨hmem, rfl⟩ := hfirst
    exact ⟨List.cons_subset.mpr ⟨hmem, ih.1⟩, by rw [List.map_cons, ih.2]⟩

theorem findSources_eq_ok {sourceFileIDs : List FileID} {sources : List InventoryFile}
    (hsources : findSources files sourceFileIDs = .ok sources) :
    sources ⊆ files ∧ sources.map InventoryFile.id = sourceFileIDs := by
  refine foldlM_invariant (fun done found => found ⊆ files ∧ found.map InventoryFile.id = done)
    (by simp) ?_ hsources
  rintro done acc fileID next ⟨hsubset, rfl⟩ hnext
  split at hnext
  · cases hnext
  rename_i file hfile
  split at hnext
  · cases hnext
  cases hnext
  obtain ⟨hmem, rfl⟩ := findFile_eq_some hfile
  exact ⟨List.append_subset.mpr ⟨hsubset, by simpa using hmem⟩, by simp⟩

/-- What is offered for a playlist. -/
def bluRayOffer (libraries : Libraries) (playlist : BluRayCandidate) (file : InventoryFile)
    (clips : List InventoryFile) (tracks : List TrackElement) : Capability where
  action := bluRayAction
  capabilityID := opaqueID libraries (bytes "capability")
    (bluRayIdentity libraries playlist file clips)
  playlistFileID := some playlist.playlistFileID
  clipFileIDS := playlist.clipFileIDs
  durationMS := some playlist.durationMS
  chapterCount := some playlist.chapters
  tracks := tracks

/-- A capability that was bound to a playlist. -/
inductive IsBluRayOffer (libraries : Libraries) (files : List InventoryFile)
    (playlist : BluRayCandidate) : Capability → Prop
  | intro {file : InventoryFile} {clips : List InventoryFile} {tracks : List TrackElement}
      (hfile : findFile files playlist.playlistFileID = some file)
      (hclips : findClips files playlist.clipFileIDs = .ok clips)
      (htracks : mapBluRayTracks playlist.tracks = .ok tracks)
      (hcount : playlist.clipFileIDs ≠ [] ∧ playlist.clipFileIDs.length ≤ 1024) :
      IsBluRayOffer libraries files playlist (bluRayOffer libraries playlist file clips tracks)

variable {playlist : BluRayCandidate} {capability : Capability}
  {capabilities manualOffers bluRayOffers dvdOffers : List Capability}
  {candidateFileIDs : List Text}

theorem IsBluRayOffer.unique {other : Capability}
    (hoffer : IsBluRayOffer libraries files playlist capability)
    (hother : IsBluRayOffer libraries files playlist other) : capability = other := by
  obtain ⟨hfile, hclips, htracks, -⟩ := hoffer
  obtain ⟨hfile', hclips', htracks', -⟩ := hother
  cases hfile.symm.trans hfile'
  cases hclips.symm.trans hclips'
  cases htracks.symm.trans htracks'
  rfl

theorem bindBluRayCapability_eq_ok {seen : List FileID}
    (hbind : bindBluRayCapability libraries files seen playlist = .ok capability) :
    playlist.playlistFileID ∉ seen ∧ IsBluRayOffer libraries files playlist capability := by
  rw [bindBluRayCapability] at hbind
  split at hbind
  · cases hbind
  rename_i file hfile
  simp only [fail, bind_eq_ok, ite_error_eq_ok, not_or, not_lt, List.isEmpty_iff] at hbind
  obtain ⟨hseen, hcount, clips, hclips, tracks, htracks, ⟨⟩⟩ := hbind
  exact ⟨hseen, ⟨hfile, hclips, htracks, hcount⟩⟩

/-- Every playlist is offered once. -/
theorem bindBluRayCapabilities_eq_ok {playlists : List BluRayCandidate}
    (hbind : bindBluRayCapabilities libraries playlists files = .ok capabilities) :
    (playlists.map BluRayCandidate.playlistFileID).Nodup ∧
      List.Forall₂ (IsBluRayOffer libraries files) playlists capabilities := by
  rw [bindBluRayCapabilities] at hbind
  split at hbind
  · cases hbind
  obtain ⟨⟨bound, seen⟩, hfold, hbind⟩ := bind_eq_ok.mp hbind
  cases hbind
  have hloop := foldlM_invariant (fun done (acc : List Capability × List FileID) =>
    acc.2 = done.map BluRayCandidate.playlistFileID ∧ acc.2.Nodup ∧
      List.Forall₂ (IsBluRayOffer libraries files) done acc.1)
    ⟨rfl, List.nodup_nil, .nil⟩ ?_ hfold
  · obtain ⟨rfl, hnodup, hoffers⟩ := hloop
    exact ⟨hnodup, hoffers⟩
  · rintro done ⟨bound, seen⟩ playlist next ⟨rfl, hnodup, hoffers⟩ hnext
    obtain ⟨capability, hcapability, hnext⟩ := bind_eq_ok.mp hnext
    cases hnext
    obtain ⟨hfresh, hoffer⟩ := bindBluRayCapability_eq_ok hcapability
    refine ⟨by simp, ?_, List.rel_append hoffers (.cons hoffer .nil)⟩
    change (done.map BluRayCandidate.playlistFileID ++ [playlist.playlistFileID]).Nodup
    rw [← List.concat_eq_append]
    exact hnodup.concat hfresh

theorem capabilityID_of_manualImport {found : List ManualImportMatch}
    {history : List RadarrHistoryEvent} {bindings : List (Text × RadarrManualImportBinding)}
    (hbind : bindManualImportCapabilities libraries found history = .ok (capabilities, bindings)) :
    ∀ capability ∈ capabilities, ∃ binding, (capability.capabilityID, binding) ∈ bindings ∧
      capability.capabilityID = manualImportCapabilityID libraries binding := by
  refine foldlM_invariant (fun _ (acc : List Capability × List (Text × RadarrManualImportBinding)) =>
    ∀ capability ∈ acc.1, ∃ binding, (capability.capabilityID, binding) ∈ acc.2 ∧
      capability.capabilityID = manualImportCapabilityID libraries binding) (by simp) ?_ hbind
  rintro done ⟨capabilities, bindings⟩ item next hbound hnext
  dsimp only at hnext
  split at hnext
  · cases hnext
    exact hbound
  · rename_i binding hbinding
    split at hnext
    · cases hnext
    cases hnext
    refine List.forall_mem_append.mpr ⟨fun capability hmem => ?_, List.forall_mem_singleton.mpr
      ⟨binding, List.mem_append_right _ (List.mem_singleton_self _), rfl⟩⟩
    obtain ⟨other, hother, hid⟩ := hbound capability hmem
    exact ⟨other, List.mem_append_left _ hother, hid⟩

theorem bindDVDCapability_eq_ok {title : DVDCandidate}
    (hbind : bindDVDCapability libraries files title = .ok capability) :
    ∃ navigation sources, findFile files title.navigationFileID = some navigation ∧
      findSources files title.sourceFileIDs = .ok sources ∧
      capability.capabilityID = opaqueID libraries (bytes "capability")
        (dvdIdentity libraries title navigation sources) := by
  rw [bindDVDCapability] at hbind
  split at hbind
  · cases hbind
  rename_i navigation hnavigation
  simp only [fail, bind_eq_ok, ite_error_eq_ok] at hbind
  obtain ⟨-, -, tracks, -, sources, hsources, -, ⟨⟩⟩ := hbind
  exact ⟨navigation, sources, hnavigation, hsources, rfl⟩

variable (hassembled : Assembled libraries observation assembly files candidateFileIDs manualOffers
  bluRayOffers dvdOffers)
include hassembled

/-- A capability is offered for a playlist, or it is identified by values of another kind. -/
theorem Assembled.cases (hmem : capability ∈ assembly.request.capabilities) :
    (∃ playlist ∈ observation.bluRayPlaylists, IsBluRayOffer libraries files playlist capability) ∨
      ∃ values, CapabilityIdentity libraries assembly values ∧
        values.head? ≠ some bluRayAction ∧
        capability.capabilityID = opaqueID libraries (bytes "capability") values := by
  have hfiles := indexFiles_eq_ok hassembled.indexed
  have hlisted := hmem
  rw [hassembled.capabilities, List.mem_append, List.mem_append, List.mem_append] at hlisted
  rcases hlisted with ((hjoin | hmanual) | hbluRay) | hdvd
  · rw [joinCapabilities] at hjoin
    split at hjoin
    · cases hjoin
    obtain rfl := List.mem_singleton.mp hjoin
    refine .inr ⟨_, .join hmem rfl, ?_, rfl⟩
    change some joinAction ≠ some bluRayAction
    decide
  · obtain ⟨found, hbound⟩ := hassembled.manualImports
    obtain ⟨binding, hbinding, hid⟩ := capabilityID_of_manualImport hbound capability hmanual
    refine .inr ⟨_, .manualImport hbinding, ?_, hid⟩
    change some (bytes "manual_import_file_v1") ≠ some bluRayAction
    decide
  · obtain ⟨-, hoffers⟩ := bindBluRayCapabilities_eq_ok hassembled.bluRay
    obtain ⟨playlist, hplaylist, hoffer⟩ := exists_left_of_forall₂ hoffers hbluRay
    exact .inl ⟨playlist, hplaylist, hoffer⟩
  · have hbound := hassembled.dvd
    rw [bindDVDCapabilities] at hbound
    split at hbound
    · cases hbound
    obtain ⟨title, htitle, hbound⟩ := exists_left_of_forall₂ (mapM_eq_ok hbound) hdvd
    obtain ⟨navigation, sources, hnavigation, hsources, hid⟩ := bindDVDCapability_eq_ok hbound
    obtain ⟨hnavigationMem, hnavigationID⟩ := findFile_eq_some hnavigation
    obtain ⟨hsourcesSubset, hsourceIDs⟩ := findSources_eq_ok hsources
    subst hfiles
    rw [← hassembled.observed] at htitle hnavigationMem hsourcesSubset
    refine .inr ⟨_, .dvd htitle hnavigationMem hsourcesSubset ⟨hnavigationID, hsourceIDs⟩, ?_,
      hid⟩
    change some (bytes "remux_dvd_v1") ≠ some bluRayAction
    decide

/-- Every file of the inventory is shown, so its size is bounded. -/
theorem Assembled.sizeBytes_le :
    ∀ file ∈ observation.inventory.files, file.fingerprint.sizeBytes ≤ 9007199254740991 := by
  intro file hmem
  obtain ⟨paths, probes, hmapped⟩ := hassembled.mapped
  have hshown : file.fingerprint.sizeBytes ∈
      assembly.request.files.map FileElement.sizeBytes := by
    rw [sizeBytes_of_mapFiles hmapped, classifyMediaFiles, List.map_map]
    refine List.mem_map.mpr ⟨file, hmem, ?_⟩
    rw [Function.comp_apply, file_classifyMediaFile]
  obtain ⟨element, helement, hsize⟩ := List.mem_map.mp hshown
  rw [← hsize]
  exact sizeBytes_le_of_valid hassembled.valid helement

/-- A runtime of the movie is shown, so it is bounded. -/
theorem Assembled.runtimeMinutes_le {minutes : Int}
    (hminutes : observation.movie.bind RadarrMovie.runtimeMinutes = some minutes) :
    1 ≤ minutes ∧ minutes ≤ 10080 := by
  obtain ⟨movie, hmovie, hruntime⟩ := Option.bind_eq_some_iff.mp hminutes
  have hshown := hassembled.movie
  rw [hmovie] at hshown
  exact runtimeMinutes_of_valid hassembled.valid hshown hruntime

/-- A capability with the name of one that is offered for a playlist is that one. -/
theorem Assembled.eq_of_capabilityID (hcollision : NoCollision libraries assembly)
    (hplaylist : playlist ∈ observation.bluRayPlaylists)
    (hoffer : IsBluRayOffer libraries files playlist capability) {other : Capability}
    (hmem : other ∈ assembly.request.capabilities)
    (hid : other.capabilityID = capability.capabilityID) : other = capability := by
  have hidentity : ∀ {playlist capability}, playlist ∈ observation.bluRayPlaylists →
      IsBluRayOffer libraries files playlist capability →
      ∃ file clips, CapabilityIdentity libraries assembly
        (bluRayIdentity libraries playlist file clips) ∧
        capability.capabilityID = opaqueID libraries (bytes "capability")
          (bluRayIdentity libraries playlist file clips) := by
    rintro playlist _ hplaylist ⟨hfile, hclips, -, -⟩
    obtain ⟨hfileMem, hfileID⟩ := findFile_eq_some hfile
    obtain ⟨hclipsSubset, hclipIDs⟩ := findClips_eq_ok hclips
    obtain rfl := indexFiles_eq_ok hassembled.indexed
    rw [← hassembled.observed] at hplaylist hfileMem hclipsSubset
    exact ⟨_, _, .bluRay hplaylist hfileMem hclipsSubset ⟨hfileID, hclipIDs⟩, rfl⟩
  have hkind : 0 ∉ bytes "capability" := by decide
  -- Equal names are equal digests, and these are of one list of values.
  have hvalues : ∀ {values values'}, CapabilityIdentity libraries assembly values →
      CapabilityIdentity libraries assembly values' →
      opaqueID libraries (bytes "capability") values =
        opaqueID libraries (bytes "capability") values' → values = values' := by
    intro values values' hidentified hidentified' hsame
    have htexts := hcollision (Set.mem_image_of_mem _ hidentified)
      (Set.mem_image_of_mem _ hidentified') (sum256_eq_of_opaqueID hsame)
    exact (opaqueIDText_inj hkind hkind htexts).2
  obtain ⟨file, clips, hidentified, hnamed⟩ := hidentity hplaylist hoffer
  rcases hassembled.cases hmem with ⟨otherPlaylist, hother, hotherOffer⟩ | ⟨values, hothers, hhead,
    hotherNamed⟩
  · obtain ⟨otherFile, otherClips, hotherIdentified, hotherNamed⟩ := hidentity hother hotherOffer
    have hsame := hvalues hotherIdentified hidentified (by rw [← hotherNamed, hid, hnamed])
    have hplaylistID : otherPlaylist.playlistFileID = playlist.playlistFileID := by
      simp only [bluRayIdentity, List.cons_append, List.cons.injEq] at hsame
      exact hsame.2.1
    obtain ⟨hnodup, -⟩ := bindBluRayCapabilities_eq_ok hassembled.bluRay
    obtain rfl := List.inj_on_of_nodup_map hnodup hother hplaylist hplaylistID
    exact hotherOffer.unique hoffer
  · have hsame := hvalues hothers hidentified (by rw [← hotherNamed, hid, hnamed])
    rw [hsame] at hhead
    exact absurd rfl hhead

end Offers

end NixConfig.MediaRepair.CaseBuilder
