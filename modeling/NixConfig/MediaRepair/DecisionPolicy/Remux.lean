/-
# Authorizing a remux

A planner's decision to remux a Blu-ray playlist is checked against the case it
was made for and against what the controller kept to itself: the capability
that the decision names must show one of the observed playlists, the playlist
must be about as long as the movie, and all of its files must be complete and
where the disc has them.

The checks of the files repeat what listing the playlists has checked, and what
the capability shows was copied from the playlist. So for a playlist that was
offered, nothing but the runtime of the movie decides.
-/

import NixConfig.MediaRepair.CaseBuilder.Offers
import NixConfig.MediaRepair.DecisionPolicy.Join
import NixConfig.MediaRepair.Mkvmerge.Candidates

namespace NixConfig.MediaRepair.DecisionPolicy

open Data Semantics
open Contracts Controller
open CaseBuilder (Assembly Observation BluRayCandidate Track assemble
  bluRayAction IsBluRayOffer Assembled NoCollision exists_assembled)
open Mkvmerge

/-! ## Runtimes -/

structure RuntimePolicy where
  maximumDifferenceMS : Int

structure ManualImportRuntimeAssessment where
  fileDurationMS : Int
  movieRuntimeMS : Option Int := none
  differenceMS : Option Int := none
  defaultToleranceMS : Option Int := none
  toleranceMS : Option Int := none

def minimumRuntimeToleranceMS : Int := 5 * 60 * 1000

def assessManualImportRuntime (fileDurationMS : Int) (movieRuntimeMinutes : Option Int)
    (policy : RuntimePolicy) : ManualImportRuntimeAssessment :=
  match movieRuntimeMinutes with
  | none => { fileDurationMS }
  | some minutes =>
    let movieDurationMS := int64 (int64 (minutes * 60) * 1000)
    let differenceMS :=
      if fileDurationMS > movieDurationMS then subInt64 fileDurationMS movieDurationMS
      else subInt64 movieDurationMS fileDurationMS
    let tenth := movieDurationMS.tdiv 10
    let defaultToleranceMS :=
      if tenth < minimumRuntimeToleranceMS then minimumRuntimeToleranceMS else tenth
    let toleranceMS :=
      if policy.maximumDifferenceMS > defaultToleranceMS then policy.maximumDifferenceMS
      else defaultToleranceMS
    { fileDurationMS
      movieRuntimeMS := some movieDurationMS
      differenceMS := some differenceMS
      defaultToleranceMS := some defaultToleranceMS
      toleranceMS := some toleranceMS }

/-! ## Validation -/

inductive RemuxRejectionReason
  | wrongDecision | caseMismatch | capabilityMissing | playlistMismatch | fileUnavailable
  | runtimeMissing | runtimeMismatch
  deriving DecidableEq, Repr

structure AuthorizedRemuxFile where
  fileID : FileID
  fingerprint : FileFingerprint

structure AuthorizedRemux where
  caseID : Text
  capabilityID : Text
  playlist : AuthorizedRemuxFile
  clips : List AuthorizedRemuxFile
  sourceBytes : Int
  expectedDurationMS : Int
  expectedChapters : Int
  expectedTracks : List Track
  runtimeToleranceMS : Int

structure RemuxValidation where
  authorized : Option AuthorizedRemux
  rejections : List RemuxRejectionReason
  runtime : Option ManualImportRuntimeAssessment

def RemuxValidation.accepted (validation : RemuxValidation) : Bool :=
  validation.authorized.isSome && validation.rejections.isEmpty

def rejectRemux (reason : RemuxRejectionReason) : RemuxValidation := ⟨none, [reason], none⟩

def remuxTrackMatches (identified : Track) (offered : TrackElement) : Bool :=
  identified.kind == offered.kind && identified.codec == offered.codec &&
    match offered.language with
    | none => identified.language == []
    | some language => identified.language == language

/-- `slices.EqualFunc` -/
def equalFunc {α β : Type} (eq : α → β → Bool) : List α → List β → Bool
  | [], [] => true
  | a :: as, b :: bs => eq a b && equalFunc eq as bs
  | _, _ => false

/-- The loop that looks for the playlist of a capability, which must be the only one. -/
def findPlaylist (playlistFileID : Text) :
    Option BluRayCandidate → List BluRayCandidate → Option BluRayCandidate
  | found, [] => found
  | found, candidate :: rest =>
    if candidate.playlistFileID = playlistFileID then
      if found.isSome then none else findPlaylist playlistFileID (some candidate) rest
    else findPlaylist playlistFileID found rest

/-- Of two paths of one file, the index keeps the later one. -/
def indexPaths (observation : Observation) (fileID : FileID) : Option Text :=
  (observation.inventory.paths.reverse.find? fun mapping => mapping.fileID = fileID).map
    FilePathMapping.absolutePath

def availableRemuxFile (observation : Observation) (fileID : FileID) :
    Option AuthorizedRemuxFile :=
  match indexFiles observation fileID, indexPaths observation fileID with
  | some file, some path =>
    if !isAbs path || pathClean path != path || decide (file.fingerprint.sizeBytes ≤ 0) then none
    else if file.downloadFile.any fun downloadFile => !downloadFile.selected ||
        downloadFile.lengthBytes != file.fingerprint.sizeBytes ||
        downloadFile.bytesCompleted != file.fingerprint.sizeBytes then none
    else some ⟨fileID, file.fingerprint⟩
  | _, _ => none

/-- How the loop over the clips ends early: a clip is refused, or a path is read from beyond
the end of the list. -/
inductive ClipExit
  | unavailable
  | outOfRange

/-- The loop over the clips from a position on. -/
def authorizeClips (observation : Observation) (streamDirectory : Text) (clipPaths : List Text) :
    Nat → AuthorizedRemux → List FileID → Except ClipExit AuthorizedRemux
  | _, authorized, [] => .ok authorized
  | position, authorized, clipID :: rest =>
    match availableRemuxFile observation clipID with
    | none => .error .unavailable
    | some clip =>
      let path := (indexPaths observation clipID).getD []
      match clipPaths[position]? with
      | none => .error .outOfRange
      | some identified =>
        if path ≠ identified ∨ pathDir path ≠ streamDirectory ∨ !numberedClip (pathBase path) ∨
            clip.fingerprint.sizeBytes > subInt64 maxInt64 authorized.sourceBytes then
          .error .unavailable
        else
          authorizeClips observation streamDirectory clipPaths (position + 1)
            { authorized with
              clips := authorized.clips ++ [clip]
              sourceBytes := addInt64 authorized.sourceBytes clip.fingerprint.sizeBytes }
            rest

/-- What a capability shows of the playlist that it is for. -/
def showsPlaylist (playlist : BluRayCandidate) (capability : Capability) : Bool :=
  capability.durationMS == some playlist.durationMS &&
    capability.chapterCount == some playlist.chapters &&
    equalFunc remuxTrackMatches playlist.tracks capability.tracks &&
    equalFunc (· == ·) playlist.clipFileIDs capability.clipFileIDS

/-- The checks of the files of a playlist; `none` where the source would read beyond the end
of a list. -/
def authorizeRemux (assembly : Assembly) (capabilityID : Text) (playlist : BluRayCandidate)
    (runtime : ManualImportRuntimeAssessment) (toleranceMS : Int) : Option RemuxValidation :=
  let observation := assembly.localSnapshot.observation
  let playlistPath := (indexPaths observation playlist.playlistFileID).getD []
  match availableRemuxFile observation playlist.playlistFileID with
  | none => some (rejectRemux .fileUnavailable)
  | some playlistFile =>
    if !numberedPlaylist (pathBase playlistPath) then some (rejectRemux .fileUnavailable)
    else if pathBase (pathDir playlistPath) ≠ bytes "PLAYLIST" ∨
        pathBase (pathDir (pathDir playlistPath)) ≠ bytes "BDMV" then
      some (rejectRemux .playlistMismatch)
    else
      match authorizeClips observation (streamDirectory playlistPath) playlist.clipPaths 0 {
          caseID := assembly.request.caseID
          capabilityID := capabilityID
          playlist := playlistFile
          clips := []
          sourceBytes := 0
          expectedDurationMS := playlist.durationMS
          expectedChapters := playlist.chapters
          expectedTracks := playlist.tracks
          runtimeToleranceMS := toleranceMS } playlist.clipFileIDs with
      | .ok authorized => some ⟨some authorized, [], some runtime⟩
      | .error .unavailable => some (rejectRemux .fileUnavailable)
      | .error .outOfRange => none

/-- The check of the movie's runtime, before those of the files. -/
def validateRuntime (assembly : Assembly) (capabilityID : Text) (playlist : BluRayCandidate)
    (policy : RuntimePolicy) : Option RemuxValidation :=
  match assembly.localSnapshot.observation.movie.bind RadarrMovie.runtimeMinutes with
  | none => some (rejectRemux .runtimeMissing)
  | some minutes =>
    if minutes ≤ 0 then some (rejectRemux .runtimeMissing)
    else
      let runtime := assessManualImportRuntime playlist.durationMS (some minutes) policy
      match runtime.differenceMS, runtime.toleranceMS with
      | some differenceMS, some toleranceMS =>
        if differenceMS > toleranceMS then some ⟨none, [.runtimeMismatch], some runtime⟩
        else authorizeRemux assembly capabilityID playlist runtime toleranceMS
      | _, _ => some ⟨none, [.runtimeMismatch], some runtime⟩

def validateRemuxWithPolicy (assembly : Assembly) (decision : RepairDecisionV3)
    (policy : RuntimePolicy) : Option RemuxValidation :=
  match decision.remuxBluray with
  | none => some (rejectRemux .wrongDecision)
  | some remux =>
    if decision.kind ≠ bluRayAction ∨ remux.action ≠ bluRayAction then
      some (rejectRemux .wrongDecision)
    else if remux.caseID ≠ assembly.request.caseID ∨
        assembly.localSnapshot.caseID ≠ assembly.request.caseID then
      some (rejectRemux .caseMismatch)
    else
      match findCapability assembly.request.capabilities remux.capabilityID with
      | none => some (rejectRemux .capabilityMissing)
      | some capability =>
        if capability.action ≠ bluRayAction ∨ capability.durationMS.isNone ∨
            capability.chapterCount.isNone ∨ capability.clipFileIDS.isEmpty ∨
            capability.tracks.isEmpty then
          some (rejectRemux .capabilityMissing)
        else
          match capability.playlistFileID with
          | none => some (rejectRemux .capabilityMissing)
          | some playlistFileID =>
            match findPlaylist playlistFileID none
                assembly.localSnapshot.observation.bluRayPlaylists with
            | none => some (rejectRemux .playlistMismatch)
            | some playlist =>
              if !showsPlaylist playlist capability then some (rejectRemux .playlistMismatch)
              else validateRuntime assembly capability.capabilityID playlist policy

/-! ## Exact runtimes -/

/-- How far a playlist may be from the movie. -/
def toleranceMS (minutes : Int) (policy : RuntimePolicy) : Int :=
  max (max (6000 * minutes) minimumRuntimeToleranceMS) policy.maximumDifferenceMS

/-- The movie has a runtime, and the playlist is about as long. -/
def RuntimeAgrees (movie : Option RadarrMovie) (durationMS : Int) (policy : RuntimePolicy) : Prop :=
  ∃ minutes, movie.bind RadarrMovie.runtimeMinutes = some minutes ∧ 0 < minutes ∧
    |60000 * minutes - durationMS| ≤ toleranceMS minutes policy

/-- With the values that a case can have, no difference or tolerance wraps. -/
theorem assessManualImportRuntime_eq {minutes durationMS : Int} (policy : RuntimePolicy)
    (hminutes : 1 ≤ minutes ∧ minutes ≤ 10080) (hduration : 1 ≤ durationMS ∧ durationMS ≤ 604800000) :
    (assessManualImportRuntime durationMS (some minutes) policy).differenceMS =
        some |60000 * minutes - durationMS| ∧
      (assessManualImportRuntime durationMS (some minutes) policy).toleranceMS =
        some (toleranceMS minutes policy) := by
  have hmovie : int64 (int64 (minutes * 60) * 1000) = 60000 * minutes := by
    have hseconds : IsInt64 (minutes * 60) := ⟨by omega, by unfold maxInt64; omega⟩
    rw [int64_of_isInt64 hseconds, int64_of_isInt64 ⟨by omega, by unfold maxInt64; omega⟩]
    ring
  have htenth : (60000 * minutes).tdiv 10 = 6000 * minutes := by
    rw [show 60000 * minutes = 10 * (6000 * minutes) by ring]
    exact Int.mul_tdiv_cancel_left _ (by decide)
  simp only [assessManualImportRuntime, hmovie, htenth, Option.some.injEq]
  constructor
  · split
    · rw [subInt64, int64_of_isInt64 ⟨by omega, by unfold maxInt64; omega⟩]
      rw [abs_of_neg (by omega)]
      ring
    · rw [subInt64, int64_of_isInt64 ⟨by omega, by unfold maxInt64; omega⟩]
      rw [abs_of_nonneg (by omega)]
  · rw [toleranceMS]
    split <;> split <;> omega

/-! ## Finding what was offered -/

variable {playlistFileID : Text} {playlists : List BluRayCandidate}
  {playlist candidate : BluRayCandidate} {libraries : Libraries} {files : List InventoryFile}
  {capability : Capability} {observation : Observation} {assembly : Assembly}

theorem findPlaylist_of_not_mem (found : Option BluRayCandidate)
    (hother : playlistFileID ∉ playlists.map BluRayCandidate.playlistFileID) :
    findPlaylist playlistFileID found playlists = found := by
  induction playlists with
  | nil => rfl
  | cons candidate rest ih =>
    rw [List.map_cons, List.mem_cons, not_or] at hother
    rw [findPlaylist, if_neg (Ne.symm hother.1), ih hother.2]

/-- Where every playlist is listed once, it is found. -/
theorem findPlaylist_of_mem (hnodup : (playlists.map BluRayCandidate.playlistFileID).Nodup)
    (hmem : playlist ∈ playlists) :
    findPlaylist playlist.playlistFileID none playlists = some playlist := by
  induction playlists with
  | nil => cases hmem
  | cons candidate rest ih =>
    rw [List.map_cons, List.nodup_cons] at hnodup
    rcases List.mem_cons.mp hmem with rfl | hmem
    · rw [findPlaylist, if_pos rfl]
      exact findPlaylist_of_not_mem _ hnodup.1
    · have hne : candidate.playlistFileID ≠ playlist.playlistFileID := by
        intro hsame
        exact hnodup.1 (hsame ▸ List.mem_map_of_mem hmem)
      rw [findPlaylist, if_neg hne, ih hnodup.2 hmem]

theorem mem_of_findPlaylist {found : Option BluRayCandidate}
    (hfind : findPlaylist playlistFileID found playlists = some playlist) :
    found = some playlist ∨ playlist ∈ playlists := by
  induction playlists generalizing found with
  | nil => exact .inl hfind
  | cons candidate rest ih =>
    rw [findPlaylist] at hfind
    split at hfind
    · split_ifs at hfind
      rcases ih hfind with hfound | hmem
      · cases hfound
        exact .inr List.mem_cons_self
      · exact .inr (List.mem_cons_of_mem _ hmem)
    · rcases ih hfind with hfound | hmem
      · exact .inl hfound
      · exact .inr (List.mem_cons_of_mem _ hmem)

theorem equalFunc_of_forall₂ {α β : Type} {eq : α → β → Bool} {left : List α} {right : List β}
    (hrelated : List.Forall₂ (fun a b => eq a b = true) left right) :
    equalFunc eq left right = true := by
  induction hrelated with
  | nil => rfl
  | cons hfirst hrest ih => rw [equalFunc, hfirst, ih, Bool.true_and]

theorem remuxTrackMatches_of_mapTrack {message : String} {track : Track} {mapped : TrackElement}
    (hmap : CaseBuilder.mapTrack message track = .ok mapped) :
    remuxTrackMatches track mapped = true := by
  rw [CaseBuilder.mapTrack] at hmap
  split at hmap
  · cases hmap
  cases hmap
  by_cases hlanguage : track.language = []
  · simp [remuxTrackMatches, CaseBuilder.optionalText, hlanguage]
  · simp [remuxTrackMatches, CaseBuilder.optionalText, hlanguage]

/-- A capability shows the playlist that it was offered for. -/
theorem showsPlaylist_of_offer
    (hoffer : CaseBuilder.IsBluRayOffer libraries files playlist capability) :
    showsPlaylist playlist capability = true ∧ capability.tracks ≠ [] := by
  obtain @⟨file, clips, tracks, -, -, htracks, -⟩ := hoffer
  rw [CaseBuilder.mapBluRayTracks] at htracks
  split at htracks
  · cases htracks
  rename_i hcount
  rw [not_or, List.isEmpty_iff] at hcount
  have hmapped := mapM_eq_ok htracks
  have hids : equalFunc (· == ·) playlist.clipFileIDs playlist.clipFileIDs = true :=
    equalFunc_of_forall₂ (List.forall₂_same.mpr fun _ _ => beq_self_eq_true _)
  have hshown := equalFunc_of_forall₂
    (hmapped.imp fun _ _ hmap => remuxTrackMatches_of_mapTrack hmap)
  refine ⟨?_, ?_⟩
  · simp [showsPlaylist, CaseBuilder.bluRayOffer, hshown, hids]
  · intro (hempty : tracks = [])
    rw [hempty] at hmapped
    exact hcount.1 (List.forall₂_nil_right_iff.mp hmapped)

/-! ## Files of the snapshot -/

section Files

variable {observation : Observation}
  (hfiles : (observation.inventory.files.map InventoryFile.id).Nodup)
  (hpaths : (observation.inventory.paths.map FilePathMapping.fileID).Nodup)
include hfiles hpaths

/-- A complete file is available under its path. -/
theorem availableRemuxFile_of_isSource {fileID : FileID} {path : Text} {file : InventoryFile}
    (hsource : IsSource observation.inventory fileID path file) :
    indexPaths observation fileID = some path ∧
      availableRemuxFile observation fileID = some ⟨fileID, file.fingerprint⟩ := by
  obtain ⟨hmem, rfl, hmapped, hclean, hcomplete⟩ := hsource
  have hfile : indexFiles observation file.id = some file := index_of_mem hfiles hmem
  have hmapping : index FilePathMapping.fileID observation.inventory.paths file.id =
      some ⟨file.id, path⟩ := index_of_mem hpaths hmapped
  have hpath : indexPaths observation file.id = some path := by
    rw [indexPaths]
    exact congrArg (Option.map FilePathMapping.absolutePath) hmapping
  refine ⟨hpath, ?_⟩
  rw [cleanAbsolute, Bool.and_eq_true, Bool.and_eq_true] at hclean
  rw [available] at hcomplete
  split_ifs at hcomplete with hsize
  rw [availableRemuxFile, hfile, hpath]
  cases hdownload : file.downloadFile with
  | none => simp_all
  | some downloadFile => simp_all

/-- The loop over the clips ends well: every clip is where the playlist has it, and their sizes
are too small to add up to more than a word can hold. -/
theorem authorizeClips_of_isClip {playlistPath : Text} {allPaths : List Text}
    (hsizes : ∀ file ∈ observation.inventory.files,
      file.fingerprint.sizeBytes ≤ 9007199254740991) {clipIDs : List FileID} {position : Nat}
    {authorized : AuthorizedRemux}
    (hclips : List.Forall₂ (IsClip observation.inventory playlistPath) clipIDs
      (allPaths.drop position))
    (hsum : 0 ≤ authorized.sourceBytes ∧
      authorized.sourceBytes + 9007199254740991 * clipIDs.length ≤ maxInt64) :
    ∃ result, authorizeClips observation (streamDirectory playlistPath) allPaths position
      authorized clipIDs = .ok result := by
  -- the position in the list of paths goes along with the clips
  induction clipIDs generalizing position authorized with
  | nil => exact ⟨authorized, rfl⟩
  | cons clipID rest ih =>
    obtain ⟨clipPath, later, hclip, hrest, hdrop⟩ := List.forall₂_cons_left_iff.mp hclips
    obtain ⟨⟨file, hsource⟩, hdirectory, hnumbered⟩ := hclip
    obtain ⟨hpath, havailable⟩ := availableRemuxFile_of_isSource hfiles hpaths hsource
    have hidentified : allPaths[position]? = some clipPath := by
      rw [← List.head?_drop, hdrop]
      rfl
    have hlater : allPaths.drop (position + 1) = later := by
      rw [← List.tail_drop, hdrop]
      rfl
    -- Sizes are below 2^53 and there are at most 1024 clips, so no sum wraps around.
    have hsize := hsizes file hsource.mem
    have hpositive : 0 < file.fingerprint.sizeBytes := by
      have hcomplete := hsource.complete
      rw [available] at hcomplete
      split_ifs at hcomplete
      omega
    rw [List.length_cons] at hsum
    push_cast at hsum
    have hroom : subInt64 maxInt64 authorized.sourceBytes = maxInt64 - authorized.sourceBytes :=
      int64_of_isInt64 ⟨by unfold maxInt64 at *; omega, by unfold maxInt64 at *; omega⟩
    have hadd : addInt64 authorized.sourceBytes file.fingerprint.sizeBytes =
        authorized.sourceBytes + file.fingerprint.sizeBytes :=
      int64_of_isInt64 ⟨by unfold maxInt64 at *; omega, by unfold maxInt64 at *; omega⟩
    rw [authorizeClips, havailable]
    simp only [hpath, Option.getD_some, hidentified, hroom, hadd]
    rw [if_neg]
    · refine ih (hlater ▸ hrest) ?_
      dsimp only
      constructor
      · omega
      · omega
    · rintro (hpath | hdir | hname | hlarge)
      · exact hpath rfl
      · exact hdir hdirectory
      · simp [hnumbered] at hname
      · omega

end Files

/-- The loop reads no path from beyond the end. -/
theorem authorizeClips_ne_outOfRange {streamDirectory : Text} {allPaths : List Text}
    {clipIDs : List FileID} {position : Nat} {authorized : AuthorizedRemux}
    (hlength : position + clipIDs.length ≤ allPaths.length) :
    authorizeClips observation streamDirectory allPaths position authorized clipIDs ≠
      .error .outOfRange := by
  induction clipIDs generalizing position authorized with
  | nil => simp [authorizeClips]
  | cons clipID rest ih =>
    rw [List.length_cons] at hlength
    have hidentified : allPaths[position]? = some allPaths[position] :=
      List.getElem?_eq_getElem (by omega)
    rw [authorizeClips]
    split
    · simp
    · simp only [hidentified]
      split
      · simp
      · exact ih (by omega)

/-! ## Offers and authorizations -/

/-- A decision to remux what a capability of the case offers. -/
structure RepairDecisionV3.Names (decision : RepairDecisionV3) (caseID capabilityID : Text) :
    Prop where
  kind : decision.kind = bluRayAction
  remux : decision.remuxBluray = some ⟨bluRayAction, caseID, capabilityID⟩

/-- The files of a listed playlist pass all checks. -/
theorem authorizeRemux_of_isFeature {root path : Text} {file : InventoryFile}
    (hobserved : assembly.localSnapshot.observation = observation)
    (hfiles : (observation.inventory.files.map InventoryFile.id).Nodup)
    (hpaths : (observation.inventory.paths.map FilePathMapping.fileID).Nodup)
    (hsizes : ∀ file ∈ observation.inventory.files,
      file.fingerprint.sizeBytes ≤ 9007199254740991) (hcount : candidate.clipFileIDs.length ≤ 1024)
    (hfeature : IsFeature observation.inventory candidate path file)
    (hroot : path = pathJoin root ([slash].intercalate file.pathComponents)) (capabilityID : Text)
    (runtime : ManualImportRuntimeAssessment) (toleranceMS : Int) :
    ∃ authorized, authorizeRemux assembly capabilityID candidate runtime toleranceMS =
      some ⟨some authorized, [], some runtime⟩ := by
  obtain ⟨hsource, hplaylist, hclips⟩ := hfeature
  obtain ⟨hpath, havailable⟩ := availableRemuxFile_of_isSource hfiles hpaths hsource
  obtain ⟨hname, hdirectory, hdisc⟩ := playlistPath_eq hplaylist hsource.clean hroot
  have hclipsPass : ∀ (start : AuthorizedRemux) (ending : ClipExit), start.sourceBytes = 0 →
      authorizeClips observation (streamDirectory path) candidate.clipPaths 0 start
        candidate.clipFileIDs ≠ .error ending := by
    intro start ending hstart hends
    have hsum : 0 ≤ start.sourceBytes ∧
        start.sourceBytes + 9007199254740991 * candidate.clipFileIDs.length ≤ maxInt64 := by
      unfold maxInt64
      omega
    have hdropped : List.Forall₂ (IsClip observation.inventory path) candidate.clipFileIDs
        (candidate.clipPaths.drop 0) := hclips
    obtain ⟨result, hresult⟩ := authorizeClips_of_isClip hfiles hpaths hsizes hdropped hsum
    rw [hresult] at hends
    cases hends
  rw [authorizeRemux]
  simp only [hobserved, hpath, havailable, Option.getD_some, hname, hdirectory, hdisc]
  rw [if_neg (by decide), if_neg (by decide)]
  split
  · exact ⟨_, rfl⟩
  · exact absurd ‹_› (hclipsPass _ _ rfl)
  · exact absurd ‹_› (hclipsPass _ _ rfl)

theorem validateRuntime_of_isFeature {policy : RuntimePolicy} {capabilityID : Text}
    (hobserved : assembly.localSnapshot.observation = observation)
    (hminutes : ∀ minutes, observation.movie.bind RadarrMovie.runtimeMinutes = some minutes →
      1 ≤ minutes ∧ minutes ≤ 10080)
    (hduration : 1 ≤ candidate.durationMS ∧ candidate.durationMS ≤ 604800000)
    (hauthorize : ∀ runtime toleranceMS, ∃ authorized,
      authorizeRemux assembly capabilityID candidate runtime toleranceMS =
        some ⟨some authorized, [], some runtime⟩) :
    ∃ validation, validateRuntime assembly capabilityID candidate policy = some validation ∧
      (validation.accepted = true ↔ RuntimeAgrees observation.movie candidate.durationMS policy) := by
  rw [validateRuntime, hobserved]
  cases hruntime : observation.movie.bind RadarrMovie.runtimeMinutes with
  | none =>
    refine ⟨_, rfl, ?_⟩
    simp [RuntimeAgrees, hruntime, rejectRemux, RemuxValidation.accepted]
  | some minutes =>
    have hbounds := hminutes minutes hruntime
    obtain ⟨hdifference, htolerance⟩ := assessManualImportRuntime_eq policy hbounds hduration
    have hagrees : RuntimeAgrees observation.movie candidate.durationMS policy ↔
        |60000 * minutes - candidate.durationMS| ≤ toleranceMS minutes policy := by
      constructor
      · rintro ⟨other, hother, -, hnear⟩
        cases hruntime.symm.trans hother
        exact hnear
      · intro hnear
        exact ⟨minutes, hruntime, by omega, hnear⟩
    rw [hagrees]
    dsimp only
    rw [if_neg (by omega)]
    simp only [hdifference, htolerance]
    split_ifs with hfar
    · exact ⟨_, rfl, by simpa [RemuxValidation.accepted] using hfar⟩
    · obtain ⟨authorized, hauthorized⟩ := hauthorize
        (assessManualImportRuntime candidate.durationMS (some minutes) policy)
        (toleranceMS minutes policy)
      exact ⟨_, hauthorized, by simpa [RemuxValidation.accepted] using hfar⟩

/-- A capability is found under its name. -/
theorem findCapability_of_offer {candidateFileIDs : List Text}
    {manualOffers bluRayOffers dvdOffers : List Capability}
    (hassembled : Assembled libraries observation assembly files candidateFileIDs manualOffers
      bluRayOffers dvdOffers) (hcollision : NoCollision libraries assembly)
    (hplaylist : playlist ∈ observation.bluRayPlaylists)
    (hoffer : IsBluRayOffer libraries files playlist capability)
    (hmem : capability ∈ assembly.request.capabilities) :
    findCapability assembly.request.capabilities capability.capabilityID = some capability := by
  have hfound : (findCapability assembly.request.capabilities
      capability.capabilityID).isSome = true :=
    List.find?_isSome.mpr ⟨capability, hmem, by simp⟩
  obtain ⟨other, hother⟩ := Option.isSome_iff_exists.mp hfound
  have hid : other.capabilityID = capability.capabilityID := by simpa using List.find?_some hother
  rw [hother, hassembled.eq_of_capabilityID hcollision hplaylist hoffer
    (List.mem_of_find?_eq_some hother) hid]

/-- A decision for an offered playlist gets to the check of the runtime. -/
theorem validateRemuxWithPolicy_of_offer
    (hoffer : IsBluRayOffer libraries files playlist capability)
    (hcase : assembly.localSnapshot.caseID = assembly.request.caseID)
    (hcapability : findCapability assembly.request.capabilities capability.capabilityID =
      some capability) (hplaylist : findPlaylist playlist.playlistFileID none
      assembly.localSnapshot.observation.bluRayPlaylists = some playlist)
    {decision : RepairDecisionV3}
    (hnames : decision.Names assembly.request.caseID capability.capabilityID)
    (policy : RuntimePolicy) :
    validateRemuxWithPolicy assembly decision policy =
      validateRuntime assembly capability.capabilityID playlist policy := by
  obtain ⟨hshown, htracks⟩ := showsPlaylist_of_offer hoffer
  have hfields : capability.action = bluRayAction ∧
      capability.durationMS = some playlist.durationMS ∧
      capability.chapterCount = some playlist.chapters ∧ capability.clipFileIDS ≠ [] ∧
      capability.playlistFileID = some playlist.playlistFileID := by
    obtain ⟨-, -, -, hcount, -⟩ := hoffer
    exact ⟨rfl, rfl, rfl, hcount, rfl⟩
  obtain ⟨haction, hduration, hchapters, hclips, hid⟩ := hfields
  rw [validateRemuxWithPolicy, hnames.remux]
  dsimp only
  rw [if_neg (by simp [hnames.kind]), if_neg (by simp [hcase]), hcapability]
  dsimp only
  rw [if_neg (by simp [haction, hduration, hchapters, hclips, htracks]), hid]
  dsimp only
  rw [hplaylist]
  dsimp only
  rw [if_neg (by simp [hshown])]

/-- The validation reads a path for every clip, and no more. -/
theorem validateRemuxWithPolicy_isSome
    (hlengths : ∀ playlist ∈ assembly.localSnapshot.observation.bluRayPlaylists,
      playlist.clipFileIDs.length = playlist.clipPaths.length) (decision : RepairDecisionV3)
    (policy : RuntimePolicy) :
    (validateRemuxWithPolicy assembly decision policy).isSome = true := by
  -- The only read by position is in the loop over the clips, so the checks are walked through
  -- from the innermost function on.
  have hauthorize : ∀ playlist ∈ assembly.localSnapshot.observation.bluRayPlaylists,
      ∀ capabilityID runtime toleranceMS,
        (authorizeRemux assembly capabilityID playlist runtime toleranceMS).isSome = true := by
    intro playlist hmem capabilityID runtime toleranceMS
    rw [authorizeRemux]
    split
    · rfl
    · split_ifs
      · rfl
      · rfl
      · split
        · rfl
        · rfl
        · rename_i hends
          refine absurd hends (authorizeClips_ne_outOfRange ?_)
          rw [hlengths playlist hmem, Nat.zero_add]
  have hruntime : ∀ playlist ∈ assembly.localSnapshot.observation.bluRayPlaylists,
      ∀ capabilityID, (validateRuntime assembly capabilityID playlist policy).isSome = true := by
    intro playlist hmem capabilityID
    rw [validateRuntime]
    split
    · rfl
    · split_ifs
      · rfl
      · dsimp only
        split
        · split_ifs
          · rfl
          · exact hauthorize playlist hmem _ _ _
        · rfl
  rw [validateRemuxWithPolicy]
  split
  · rfl
  · split_ifs
    · rfl
    · rfl
    · split
      · rfl
      · split_ifs
        · rfl
        · split
          · rfl
          · split
            · rfl
            · rename_i playlist hfind
              split_ifs
              · rfl
              · rcases mem_of_findPlaylist hfind with hnone | hmem
                · cases hnone
                · exact hruntime playlist hmem _

/-- For every playlist that was listed and offered, a decision that names its capability is
accepted exactly if the movie has a runtime and the playlist is about as long; and no
decision makes the validation read beyond the end of a list. -/
theorem offered_remux_accepted_iff {ε : Type} {libraries : Libraries}
    {sorting : Sorting joinedComponents} {ended : InventoryFile → Bool}
    {identifier : Option (Identifier ε)} {root : Text} {observation : Observation}
    {assembly : Assembly}
    (hlist : listFeaturePlaylists libraries sorting ended observation.inventory identifier =
      .ok observation.bluRayPlaylists)
    (hroot : ∀ file ∈ observation.inventory.files, ∀ mapping ∈ observation.inventory.paths,
      mapping.fileID = file.id →
        mapping.absolutePath = pathJoin root ([slash].intercalate file.pathComponents))
    (hassemble : assemble libraries observation = .ok assembly)
    (hcollision : NoCollision libraries assembly) :
    (∀ candidate ∈ observation.bluRayPlaylists, ∃ capability ∈ assembly.request.capabilities,
      IsBluRayOffer libraries observation.inventory.files candidate capability ∧
      ∀ (decision : RepairDecisionV3) (policy : RuntimePolicy),
        decision.Names assembly.request.caseID capability.capabilityID →
        ∃ validation, validateRemuxWithPolicy assembly decision policy = some validation ∧
          (validation.accepted = true ↔
            RuntimeAgrees observation.movie candidate.durationMS policy)) ∧
    ∀ (decision : RepairDecisionV3) (policy : RuntimePolicy),
      (validateRemuxWithPolicy assembly decision policy).isSome = true := by
  obtain ⟨hfiles, hpaths, hfeatures⟩ := listFeaturePlaylists_eq_ok hlist
  obtain ⟨files, candidateFileIDs, manualOffers, bluRayOffers, dvdOffers, hassembled⟩ :=
    exists_assembled hassemble
  -- the case indexes all files of the inventory
  obtain rfl := CaseBuilder.indexFiles_eq_ok hassembled.indexed
  constructor
  · intro candidate hcandidate
    obtain ⟨hnodup, hoffers⟩ := CaseBuilder.bindBluRayCapabilities_eq_ok hassembled.bluRay
    obtain ⟨capability, hbound, hoffer⟩ := exists_right_of_forall₂ hoffers hcandidate
    have hmem : capability ∈ assembly.request.capabilities := by
      rw [hassembled.capabilities]
      exact List.mem_append_left _ (List.mem_append_right _ hbound)
    refine ⟨capability, hmem, hoffer, ?_⟩
    intro decision policy hnames
    obtain ⟨path, file, hfeature⟩ := hfeatures candidate hcandidate
    -- no other capability has this identifier, so the decision selects this one
    have hcapability := findCapability_of_offer hassembled hcollision hcandidate hoffer hmem
    have hplaylist := findPlaylist_of_mem hnodup hcandidate
    rw [← hassembled.observed] at hplaylist
    rw [validateRemuxWithPolicy_of_offer hoffer hassembled.caseID hcapability hplaylist hnames]
    obtain ⟨hcount, hduration⟩ : candidate.clipFileIDs.length ≤ 1024 ∧
        capability.durationMS = some candidate.durationMS := by
      obtain ⟨-, -, -, -, hcount⟩ := hoffer
      exact ⟨hcount, rfl⟩
    -- what is left of the checks is the comparison of the lengths
    refine validateRuntime_of_isFeature hassembled.observed
      (fun minutes => hassembled.runtimeMinutes_le)
      (CaseBuilder.durationMS_of_valid hassembled.valid hmem hduration) ?_
    exact authorizeRemux_of_isFeature hassembled.observed hfiles hpaths hassembled.sizeBytes_le
      hcount hfeature
      (hroot file hfeature.source.mem _ hfeature.source.mapped hfeature.source.id_eq.symm) _
  · refine validateRemuxWithPolicy_isSome ?_
    rw [hassembled.observed]
    intro playlist hmem
    obtain ⟨path, file, hfeature⟩ := hfeatures playlist hmem
    exact hfeature.clips.length_eq

/-! ### A disc that is offered -/

/-- Where the disc is, the playlist, and the two clips it plays. -/
def discRoot : Text := bytes "/down&loads"

def discClip : Text := bytes "/down&loads/BDMV/STREAM/00001.m2ts"

def discCredits : Text := bytes "/down&loads/BDMV/STREAM/00002.m2ts"

def discPlaylist : BluRayCandidate where
  playlistFileID := bytes "file:1"
  clipFileIDs := [bytes "file:2", bytes "file:3"]
  durationMS := 5400000
  chapters := 12
  clipPaths := [discClip, discCredits]
  tracks := [⟨bytes "video", bytes "AVC", []⟩]

def discFile (id : String) (components : List String) (sizeBytes : Int) : InventoryFile where
  id := bytes id
  pathComponents := components.map bytes
  fingerprint := ⟨0, 1, sizeBytes, 0⟩
  downloadFile := none

def discFiles : List InventoryFile :=
  [discFile "file:1" ["BDMV", "PLAYLIST", "00001.mpls"] 10,
    discFile "file:2" ["BDMV", "STREAM", "00001.m2ts"] 20,
    discFile "file:3" ["BDMV", "STREAM", "00002.m2ts"] 5]

/-- A download of a disc whose movie takes ninety minutes. -/
def discObservation : Observation where
  observedAt := 63900000000 * 1000000000
  correlation := {
    radarr := ⟨1, some 7, bytes "Movie", bytes "completed", bytes "warning",
      bytes "importBlocked", [], [], [], []⟩
    download := ⟨bytes "sabnzbd", bytes "usenet", [], bytes "Movie", true,
      [], [], none, 35, bytes "output_tree", []⟩
    downloadRoot := discRoot
    rejectionReasons := [] }
  movie := some ⟨7, 1, none, bytes "Movie", none, [], 2020, some 90⟩
  history := []
  manualImports := []
  inventory := {
    files := discFiles
    paths := [⟨bytes "file:1", bytes "/down&loads/BDMV/PLAYLIST/00001.mpls"⟩,
      ⟨bytes "file:2", discClip⟩, ⟨bytes "file:3", discCredits⟩] }
  probes := discFiles.map fun file => ⟨file.id, ⟨.notCollected, none, .notCandidate⟩⟩
  bluRayPlaylists := [discPlaylist]
  dvdTitles := []

def discIdentifier : Identifier Empty := fun _ =>
  .ok ⟨5400000, 12, [discClip, discCredits], [⟨bytes "video", bytes "AVC", []⟩]⟩

theorem listFeaturePlaylists_disc :
    listFeaturePlaylists asciiLibraries (Sorting.insertion joinedComponents) (fun _ => false)
      discObservation.inventory (some discIdentifier) = .ok discObservation.bluRayPlaylists := by
  rfl

/-- No request has the ampersand of the download's directory. -/
theorem rejectLocalValues_disc {request : RepairCaseV3}
    (hmarshal : request.marshal = some (utf8 request.json.encode)) :
    CaseBuilder.rejectLocalValues asciiLibraries request discObservation = .ok () := by
  have hpaths : CaseBuilder.localPaths discObservation =
      [discRoot, [], [], bytes "/down&loads/BDMV/PLAYLIST/00001.mpls", discClip, discCredits] := rfl
  have hidentifiers : CaseBuilder.downloadIdentifiers discObservation = [[], []] := rfl
  have hsign (path : String) (hmem : '&' ∈ path.toList) :
      ¬ bytes path <:+: utf8 request.json.encode := by
    intro hwithin
    exact Json.not_mem_markup_of_mem_encode ((infix_of_infix_utf8 hwithin).subset hmem) (by decide)
  have hroot := hsign "/down&loads" (by decide)
  have hplaylist := hsign "/down&loads/BDMV/PLAYLIST/00001.mpls" (by decide)
  have hclip := hsign "/down&loads/BDMV/STREAM/00001.m2ts" (by decide)
  have hcredits := hsign "/down&loads/BDMV/STREAM/00002.m2ts" (by decide)
  rw [CaseBuilder.rejectLocalValues, hmarshal, hpaths, hidentifiers]
  simp [contains, discRoot, discClip, discCredits, hroot, hplaylist, hclip, hcredits]

/-- The disc is all that its case offers. -/
theorem exists_assembly_disc : ∃ assembly, assemble asciiLibraries discObservation = .ok assembly ∧
    assembly.request.capabilities.map Capability.action = [bluRayAction] ∧
    assembly.localSnapshot.manualImportBindings = [] := by
  have hchecked : (CaseBuilder.buildRequest asciiLibraries discObservation).toOption.any
      (fun built => built.2.isEmpty &&
        (built.1.capabilities.map Capability.action == [bluRayAction]) &&
        (built.1.observedAt :: built.1.evidenceTimes).all marshals &&
        (CaseBuilder.finish asciiLibraries discObservation built.1 built.2).toOption.isSome) =
      true := by
    decide +kernel
  cases hbuild : CaseBuilder.buildRequest asciiLibraries discObservation with
  | error err =>
    rw [hbuild] at hchecked
    cases hchecked
  | ok built =>
    obtain ⟨request, bindings⟩ := built
    rw [hbuild] at hchecked
    simp only [Except.toOption, Option.any_some, Bool.and_eq_true, List.isEmpty_iff,
      beq_iff_eq] at hchecked
    obtain ⟨⟨⟨rfl, hactions⟩, htimes⟩, hfinished⟩ := hchecked
    cases hfinish : CaseBuilder.finish asciiLibraries discObservation request [] with
    | error err =>
      rw [hfinish] at hfinished
      cases hfinished
    | ok assembly =>
      obtain ⟨caseID, hcaseID, hnamed⟩ := bind_eq_ok.mp hfinish
      obtain ⟨encoded, hencode, hassembly⟩ := bind_eq_ok.mp hnamed
      cases hassembly
      refine ⟨_, bind_eq_ok.mpr ⟨_, hbuild, bind_eq_ok.mpr ⟨(), ?_, hfinish⟩⟩, hactions, rfl⟩
      exact mapError_eq_ok.mpr (rejectLocalValues_disc (if_pos htimes))

/-- One list of values identifies all that the case offers, so no two collide. -/
theorem noCollision_disc
    (hactions : assembly.request.capabilities.map Capability.action = [bluRayAction])
    (hbindings : assembly.localSnapshot.manualImportBindings = [])
    (hobserved : assembly.localSnapshot.observation = discObservation) :
    NoCollision asciiLibraries assembly := by
  suffices hsame : ∀ values, CaseBuilder.CapabilityIdentity asciiLibraries assembly values →
      values = CaseBuilder.bluRayIdentity asciiLibraries discPlaylist
        (discFile "file:1" ["BDMV", "PLAYLIST", "00001.mpls"] 10) discFiles.tail by
    rintro _ ⟨values, hvalues, rfl⟩ _ ⟨others, hothers, rfl⟩ -
    rw [hsame values hvalues, hsame others hothers]
  intro values hvalues
  cases hvalues with
  | join hmem haction =>
    have hlisted := List.mem_map_of_mem (f := Capability.action) hmem
    rw [hactions, haction] at hlisted
    exact absurd hlisted (by decide)
  | manualImport hmem =>
    rw [hbindings] at hmem
    cases hmem
  | bluRay hmem hfile hclips hids =>
    rw [hobserved] at hmem hfile hclips
    obtain rfl := List.mem_singleton.mp hmem
    obtain ⟨hplaylistID, hclipIDs⟩ := hids
    have hnodup : (discFiles.map InventoryFile.id).Nodup := by decide
    have hinjective := List.inj_on_of_nodup_map hnodup
    -- Files of the inventory with the same identifiers are the same files.
    rw [hinjective hfile List.mem_cons_self hplaylistID]
    congr 1
    exact Json.eq_of_map_eq (fun clip hmem clip' hmem' => hinjective (hclips hmem)
      (List.mem_cons_of_mem _ hmem')) hclipIDs
  | dvd hmem _ _ _ =>
    rw [hobserved] at hmem
    cases hmem

/-- A disc of ninety minutes is accepted for a movie of ninety minutes. -/
theorem disc_accepted : ∃ assembly capability validation,
    assemble asciiLibraries discObservation = .ok assembly ∧
    capability ∈ assembly.request.capabilities ∧
    validateRemuxWithPolicy assembly
      ⟨bluRayAction, none, some ⟨bluRayAction, assembly.request.caseID, capability.capabilityID⟩⟩
      ⟨0⟩ = some validation ∧ validation.accepted = true := by
  obtain ⟨assembly, hassemble, hactions, hbindings⟩ := exists_assembly_disc
  obtain ⟨files, candidateFileIDs, manualOffers, bluRayOffers, dvdOffers, hassembled⟩ :=
    exists_assembled hassemble
  have hroot : ∀ file ∈ discObservation.inventory.files,
      ∀ mapping ∈ discObservation.inventory.paths, mapping.fileID = file.id →
        mapping.absolutePath =
          pathJoin discRoot ([slash].intercalate file.pathComponents) := by
    decide +kernel
  obtain ⟨hoffers, -⟩ := offered_remux_accepted_iff listFeaturePlaylists_disc hroot hassemble
    (noCollision_disc hactions hbindings hassembled.observed)
  obtain ⟨capability, hmem, -, hdecide⟩ := hoffers discPlaylist List.mem_cons_self
  obtain ⟨validation, hvalidation, haccepted⟩ := hdecide
    ⟨bluRayAction, none, some ⟨bluRayAction, assembly.request.caseID, capability.capabilityID⟩⟩
    ⟨0⟩ ⟨rfl, rfl⟩
  refine ⟨assembly, capability, validation, hassemble, hmem, hvalidation, ?_⟩
  exact haccepted.mpr ⟨90, rfl, by decide, by decide⟩

end NixConfig.MediaRepair.DecisionPolicy
