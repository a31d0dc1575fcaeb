/-
# What is built from directories

What lies inside a source directory is a relation on paths, read off the directory
entries. A scan that succeeds has found exactly the audio files among them, each
with a path that is safe below a workspace. They are copied, or the one image
among them is split into tracks.
-/

import NixConfig.MediaRepair.Materialize.Built

namespace NixConfig.MediaRepair.Materialize

open Data Semantics

variable {β ε : Type}

/-! ## Sources -/

/-- What lies inside a source directory, by its path from there. -/
inductive Inside (files : Files β) (rootID : Text) : Path → Path → Stat → Prop
  | entry {directory : Path} {children : List DirectoryEntry} {child : DirectoryEntry} {stat : Stat}
      (hopen : files.openDirectory rootID directory = .ok children) (hchild : child ∈ children)
      (hstat : child.stat = some stat) : Inside files rootID directory [child.name] stat
  | deeper {directory path : Path} {children : List DirectoryEntry} {child : DirectoryEntry}
      {stat found : Stat} (hopen : files.openDirectory rootID directory = .ok children)
      (hchild : child ∈ children) (hstat : child.stat = some stat)
      (hdirectory : stat.kind = .directory)
      (hinside : Inside files rootID (directory ++ [child.name]) path found) :
      Inside files rootID directory (child.name :: path) found

/-- What is reached through one entry of a directory. -/
inductive Through (files : Files β) (rootID : Text) (directory : Path) (child : DirectoryEntry) :
    Path → Stat → Prop
  | entry {stat : Stat} (hstat : child.stat = some stat) :
      Through files rootID directory child [child.name] stat
  | deeper {path : Path} {stat found : Stat} (hstat : child.stat = some stat)
      (hdirectory : stat.kind = .directory)
      (hinside : Inside files rootID (directory ++ [child.name]) path found) :
      Through files rootID directory child (child.name :: path) found

theorem inside_iff {files : Files β} {rootID : Text} {directory path : Path} {stat : Stat}
    {children : List DirectoryEntry}
    (hopen : files.openDirectory rootID directory = .ok children) :
    Inside files rootID directory path stat ↔
      ∃ child ∈ children, Through files rootID directory child path stat := by
  constructor
  · intro hinside
    cases hinside with
    | entry hopen' hchild hstat =>
      cases hopen.symm.trans hopen'
      exact ⟨_, hchild, .entry hstat⟩
    | deeper hopen' hchild hstat hdirectory hinside =>
      cases hopen.symm.trans hopen'
      exact ⟨_, hchild, .deeper hstat hdirectory hinside⟩
  · rintro ⟨child, hchild, hthrough⟩
    cases hthrough with
    | entry hstat => exact .entry hopen hchild hstat
    | deeper hstat hdirectory hinside => exact .deeper hopen hchild hstat hdirectory hinside

namespace Worker

variable {worker : Worker β ε} {rootID : Text} {workspace : Path}

/-- An audio file, by its name. -/
def Audio (worker : Worker β ε) (path : Path) (stat : Stat) : Prop :=
  stat.kind = .regular ∧ ∃ name, path.getLast? = some name ∧
    worker.hasExtension audioExtensions name

/-- A file as a scan notes it, from the directory that is scanned. -/
def fileAt (absolute relative path : Path) (stat : Stat) : DirectoryFile :=
  ⟨absolute ++ path, join (relative ++ path), stat.snapshot⟩

/-- The files that a part of a scan adds are the audio files of that part. -/
structure Finds (worker : Worker β ε) (part : Path → Stat → Prop) (absolute relative : Path)
    (files : List DirectoryFile) : Prop where
  found : ∀ file ∈ files, ∃ path stat, part path stat ∧ worker.Audio path stat ∧ SafePath path ∧
    0 < stat.snapshot.sizeBytes ∧ file = fileAt absolute relative path stat
  all : ∀ path stat, part path stat → worker.Audio path stat →
    fileAt absolute relative path stat ∈ files

/-- A scan of a part adds files, and they are the audio files of that part. -/
def Adds (worker : Worker β ε) (part : Path → Stat → Prop) (absolute relative : Path)
    (scan after : Scan) : Prop :=
  ∃ files, after.files = scan.files ++ files ∧ worker.Finds part absolute relative files

variable {absolute relative : Path}

variable {files : List DirectoryFile} {name : Text} {stat : Stat} {scan : Scan}
  {child : DirectoryEntry} {descend descend' : Path → Path → Scan → Except Fault Scan}
  {scanDone cueDone : Nat → Bool} {components : Path} {source : DirectorySource} {total : Int}

theorem Finds.append {first second : Path → Stat → Prop} {others : List DirectoryFile}
    (hfirst : worker.Finds first absolute relative files)
    (hsecond : worker.Finds second absolute relative others) :
    worker.Finds (fun path stat => first path stat ∨ second path stat) absolute relative
      (files ++ others) := by
  refine ⟨fun file hmem => ?_, fun path stat hpart haudio => ?_⟩
  · rcases List.mem_append.mp hmem with hmem | hmem
    · obtain ⟨path, stat, hpart, hrest⟩ := hfirst.found file hmem
      exact ⟨path, stat, .inl hpart, hrest⟩
    · obtain ⟨path, stat, hpart, hrest⟩ := hsecond.found file hmem
      exact ⟨path, stat, .inr hpart, hrest⟩
  · rcases hpart with hpart | hpart
    · exact List.mem_append_left _ (hfirst.all path stat hpart haudio)
    · exact List.mem_append_right _ (hsecond.all path stat hpart haudio)

theorem Finds.congr {part other : Path → Stat → Prop}
    (hfinds : worker.Finds part absolute relative files)
    (hsame : ∀ path stat, other path stat ↔ part path stat) :
    worker.Finds other absolute relative files := by
  have heq : other = part := by
    funext path stat
    exact propext (hsame path stat)
  rw [heq]
  exact hfinds

theorem safeComponent_of_name {clean : Text} (hname : safeArchiveName name false = some clean)
    (hslash : slash ∉ name) : SafeComponent name := by
  obtain rfl := eq_of_safeArchiveName hname
  have hsafe := safePath_of_safeArchiveName hname
  rw [split_of_slash_not_mem hslash] at hsafe
  exact hsafe.safe clean (List.mem_singleton_self _)

/-- A scan that goes into a directory finds what is inside. -/
def Descends (worker : Worker β ε) (rootID : Text)
    (descend : Path → Path → Scan → Except Fault Scan) : Prop :=
  ∀ {absolute relative : Path} {scan after : Scan}, descend absolute relative scan = .ok after →
    worker.Adds (Inside worker.files rootID absolute) absolute relative scan after

theorem finds_of_scanFile {after : Scan} (hkind : stat.kind = .regular) (hslash : slash ∉ name)
    (hscan : worker.scanFile (absolute ++ [name]) (relative ++ [name]) name stat.snapshot scan =
      .ok after) :
    worker.Adds (fun path found => path = [name] ∧ found = stat) absolute relative scan after := by
  have hother (hplain : ¬ worker.hasExtension audioExtensions name) :
      worker.Finds (fun path found => path = [name] ∧ found = stat) absolute relative [] := by
    refine ⟨by simp, ?_⟩
    rintro _ _ ⟨rfl, rfl⟩ ⟨-, last, hlast, hmedia⟩
    rw [List.getLast?_singleton] at hlast
    exact absurd (Option.some.inj hlast ▸ hmedia) hplain
  unfold scanFile at hscan
  dsimp only at hscan
  split at hscan
  · rename_i hneither
    cases hscan
    refine ⟨[], (List.append_nil _).symm, hother ?_⟩
    intro hmedia
    simp [hmedia] at hneither
  split at hscan
  · cases hscan
  rename_i hname
  split at hscan
  · cases hscan
  rename_i hsize
  push Not at hsize
  split_ifs at hscan with hmedia
  · cases hscan
    obtain ⟨clean, hclean⟩ := Option.ne_none_iff_exists'.mp (by simpa using hname)
    refine ⟨_, rfl, fun file hmem => ?_, ?_⟩
    · obtain rfl := List.mem_singleton.mp hmem
      refine ⟨[name], stat, ⟨rfl, rfl⟩, ⟨hkind, name, rfl, hmedia⟩, ⟨by simp, ?_⟩, hsize.1, rfl⟩
      intro component hcomponent
      rw [List.mem_singleton.mp hcomponent]
      exact safeComponent_of_name hclean hslash
    · rintro _ _ ⟨rfl, rfl⟩ -
      exact List.mem_singleton_self _
  · cases hscan
    exact ⟨[], (List.append_nil _).symm, hother hmedia⟩

/-- What is found below an entry, seen from its directory. -/
theorem Finds.below (hfinds : worker.Finds (Inside worker.files rootID (absolute ++ [child.name]))
      (absolute ++ [child.name]) (relative ++ [child.name]) files) (hstat : child.stat = some stat)
    (hdirectory : stat.kind = .directory) (hsafe : SafeComponent child.name) :
    worker.Finds (Through worker.files rootID absolute child) absolute relative files := by
  have hsame (path : Path) (found : Stat) :
      fileAt (absolute ++ [child.name]) (relative ++ [child.name]) path found =
        fileAt absolute relative (child.name :: path) found := by
    simp [fileAt]
  have haudio (path : Path) (found : Stat) (hpath : path ≠ []) :
      worker.Audio (child.name :: path) found ↔ worker.Audio path found := by
    obtain ⟨first, rest, rfl⟩ := List.exists_cons_of_ne_nil hpath
    rw [Audio, Audio, List.getLast?_cons_cons]
  refine ⟨fun file hmem => ?_, fun path found hthrough haudible => ?_⟩
  · obtain ⟨path, found, hinside, haudible, hpath, hsize, rfl⟩ := hfinds.found file hmem
    refine ⟨child.name :: path, found, .deeper hstat hdirectory hinside,
      (haudio path found hpath.ne_nil).mpr haudible,
      ⟨by simp, List.forall_mem_cons.mpr ⟨hsafe, hpath.safe⟩⟩, hsize, hsame path found⟩
  · cases hthrough with
    | entry hfound =>
      -- A directory is no audio file.
      cases hstat.symm.trans hfound
      rw [haudible.1] at hdirectory
      cases hdirectory
    | @deeper rest _ _ hfound _ hinside =>
      have hrest : rest ≠ [] := by
        rintro rfl
        cases hinside
      rw [← hsame]
      exact hfinds.all rest _ hinside ((haudio rest _ hrest).mp haudible)

/-- An entry is entered, or it is a file. -/
theorem scanEntry_eq_ok {after : Scan} :
    worker.scanEntry descend absolute relative scan child = .ok after ↔
      scan.entries + 1 ≤ maximumEntries ∧ invalidEntryName child.name = false ∧
      ∃ stat, child.stat = some stat ∧
        (stat.kind = .directory ∧ safeArchiveName child.name false ≠ none ∧
            descend (absolute ++ [child.name]) (relative ++ [child.name])
              { scan with entries := scan.entries + 1 } = .ok after ∨
          stat.kind = .regular ∧
            worker.scanFile (absolute ++ [child.name]) (relative ++ [child.name]) child.name
              stat.snapshot { scan with entries := scan.entries + 1 } = .ok after) := by
  rw [scanEntry, ite_error_eq_ok, ite_error_eq_ok, not_lt, Bool.not_eq_true]
  refine and_congr_right' (and_congr_right' ?_)
  cases child.stat with
  | none => simp
  | some stat => cases hkind : stat.kind <;> simp [ite_error_eq_ok, hkind]

theorem finds_of_scanEntry {after : Scan} (hdescend : worker.Descends rootID descend)
    (hscan : worker.scanEntry descend absolute relative scan child = .ok after) :
    worker.Adds (Through worker.files rootID absolute child) absolute relative scan after := by
  obtain ⟨-, hvalid, stat, hstat, hscan⟩ := scanEntry_eq_ok.mp hscan
  have hslash : slash ∉ child.name := by
    intro hmem
    simp [invalidEntryName, hmem] at hvalid
  obtain ⟨hkind, hname, hscan⟩ | ⟨hkind, hscan⟩ := hscan
  · obtain ⟨clean, hclean⟩ := Option.ne_none_iff_exists'.mp hname
    obtain ⟨files, hfiles, hfinds⟩ := hdescend hscan
    exact ⟨files, hfiles, hfinds.below hstat hkind (safeComponent_of_name hclean hslash)⟩
  · obtain ⟨files, hfiles, hfinds⟩ := finds_of_scanFile hkind hslash hscan
    refine ⟨files, hfiles, hfinds.congr fun path found => ⟨fun hthrough => ?_, ?_⟩⟩
    · cases hthrough with
      | entry hfound => exact ⟨rfl, Option.some.inj (hfound.symm.trans hstat)⟩
      | deeper hfound hdirectory _ =>
        cases hstat.symm.trans hfound
        rw [hkind] at hdirectory
        cases hdirectory
    · rintro ⟨rfl, rfl⟩
      exact .entry hstat

variable {children : List DirectoryEntry} {index : Nat} {content : β} {names : List Text}

theorem finds_of_scanEntries {after : Scan} (hdescend : worker.Descends rootID descend)
    (hscan : worker.scanEntries descend absolute relative scan children = .ok after) :
    worker.Adds (fun path stat => ∃ child ∈ children,
      Through worker.files rootID absolute child path stat) absolute relative scan after := by
  induction children generalizing scan with
  | nil =>
    cases hscan
    exact ⟨[], (List.append_nil _).symm, by simp, by simp⟩
  | cons child rest ih =>
    obtain ⟨next, hnext, hscan⟩ := bind_eq_ok.mp hscan
    obtain ⟨files, hfiles, hfinds⟩ := finds_of_scanEntry hdescend hnext
    obtain ⟨others, hothers, hrest⟩ := ih hscan
    refine ⟨files ++ others, by rw [hothers, hfiles, List.append_assoc], ?_⟩
    exact (hfinds.append hrest).congr fun path stat => by simp

/-- Every depth of a scan finds what is inside. -/
theorem descends_visit (done : Nat → Bool) (depth : Nat) :
    worker.Descends rootID (worker.visit done rootID depth) := by
  have hwith {descend : Path → Path → Scan → Except Fault Scan}
      (hdescend : worker.Descends rootID descend) :
      worker.Descends rootID (worker.visitWith done rootID descend) := by
    intro absolute relative scan after hvisit
    obtain ⟨-, -, hvisit⟩ := bind_eq_ok.mp hvisit
    obtain ⟨children, hopen, hvisit⟩ := bind_eq_ok.mp hvisit
    obtain ⟨files, hfiles, hfinds⟩ := finds_of_scanEntries hdescend hvisit
    refine ⟨files, hfiles, hfinds.congr fun path stat => ?_⟩
    rw [inside_iff hopen]
    simp only [List.mem_insertionSort]
  induction depth with
  | zero => exact hwith fun hlimit => by cases hlimit
  | succ depth ih => exact hwith ih

/-- A scan of a source finds its audio files. -/
theorem finds_of_scanDirectory
    (hscan : worker.scanDirectory scanDone cueDone rootID components = .ok source) :
    worker.Finds (Inside worker.files rootID components) components [] source.files ∧
      source.files ≠ [] := by
  simp only [scanDirectory, sourceOf, bind_eq_ok, ite_error_eq_ok, List.isEmpty_iff] at hscan
  obtain ⟨scan, hvisit, hsome, cue, -, ⟨⟩⟩ := hscan
  obtain ⟨files, hfiles, hfinds⟩ := descends_visit scanDone 64 hvisit
  rw [List.nil_append] at hfiles
  rw [← hfiles] at hfinds
  exact ⟨hfinds, hsome⟩

/-! ## The checks of a scan

The context decides whether a scan fails, but not what it finds. -/

/-- What one way into directories answers the other answers too. -/
def Permits (first second : Path → Path → Scan → Except Fault Scan) : Prop :=
  ∀ absolute relative scan after, first absolute relative scan = .ok after →
    second absolute relative scan = .ok after

theorem scanEntry_of_permits {after : Scan} (hpermits : Permits descend descend')
    (hscan : worker.scanEntry descend absolute relative scan child = .ok after) :
    worker.scanEntry descend' absolute relative scan child = .ok after := by
  obtain ⟨hlimit, hname, stat, hstat, hscan⟩ := scanEntry_eq_ok.mp hscan
  refine scanEntry_eq_ok.mpr ⟨hlimit, hname, stat, hstat, hscan.imp_left ?_⟩
  rintro ⟨hkind, hsafe, hscan⟩
  exact ⟨hkind, hsafe, hpermits _ _ _ _ hscan⟩

theorem scanEntries_of_permits {after : Scan} (hpermits : Permits descend descend')
    (hscan : worker.scanEntries descend absolute relative scan children = .ok after) :
    worker.scanEntries descend' absolute relative scan children = .ok after := by
  induction children generalizing scan with
  | nil => exact hscan
  | cons child rest ih =>
    obtain ⟨next, hnext, hscan⟩ := bind_eq_ok.mp hscan
    exact bind_eq_ok.mpr ⟨next, scanEntry_of_permits hpermits hnext, ih hscan⟩

/-- Checks that never fire permit whatever others do. -/
theorem permits_visit (done : Nat → Bool) (depth : Nat) :
    Permits (worker.visit done rootID depth) (worker.visit (fun _ => false) rootID depth) := by
  have hwith {descend descend' : Path → Path → Scan → Except Fault Scan}
      (hpermits : Permits descend descend') :
      Permits (worker.visitWith done rootID descend)
        (worker.visitWith (fun _ => false) rootID descend') := by
    intro absolute relative scan after hvisit
    obtain ⟨-, -, hvisit⟩ := bind_eq_ok.mp hvisit
    obtain ⟨children, hopen, hvisit⟩ := bind_eq_ok.mp hvisit
    refine bind_eq_ok.mpr ⟨(), rfl, bind_eq_ok.mpr ⟨children, hopen, ?_⟩⟩
    exact scanEntries_of_permits hpermits hvisit
  induction depth with
  | zero => exact hwith fun _ _ _ _ hlimit => by cases hlimit
  | succ depth ih => exact hwith ih

theorem selectCue_never {done : Nat → Bool} {tools : CueTools β} {audioFiles : List DirectoryFile}
    {selected plan : Option CuePlan} {cueFiles : List DirectoryFile}
    (hselect : worker.selectCue done tools rootID audioFiles index selected cueFiles = .ok plan) :
    worker.selectCue (fun _ => false) tools rootID audioFiles index selected cueFiles =
      .ok plan := by
  induction cueFiles generalizing index selected with
  | nil => exact hselect
  | cons cueFile rest ih =>
    obtain ⟨-, -, hselect⟩ := bind_eq_ok.mp hselect
    obtain ⟨starts, hstarts, hselect⟩ := bind_eq_ok.mp hselect
    refine bind_eq_ok.mpr ⟨(), rfl, bind_eq_ok.mpr ⟨starts, hstarts, ?_⟩⟩
    rcases starts with _ | starts
    · exact ih hselect
    · dsimp only at hselect ⊢
      split at hselect
      · exact ih hselect
      · cases hselect

theorem scanDirectory_never
    (hscan : worker.scanDirectory scanDone cueDone rootID components = .ok source) :
    worker.scanDirectory (fun _ => false) (fun _ => false) rootID components = .ok source := by
  simp only [scanDirectory, sourceOf, bind_eq_ok, ite_error_eq_ok] at hscan ⊢
  obtain ⟨scan, hvisit, hsome, cue, hcue, hsource⟩ := hscan
  refine ⟨scan, permits_visit scanDone 64 _ _ _ _ hvisit, hsome, cue, ?_, hsource⟩
  unfold readCuePlan at hcue ⊢
  split_ifs at hcue with hnone
  · rw [if_pos hnone]
    exact hcue
  · rw [if_neg hnone]
    cases htools : worker.cue with
    | none =>
      rw [htools] at hcue
      cases hcue
    | some tools =>
      simp only [htools] at hcue ⊢
      exact selectCue_never hcue

/-- Two scans of a source that succeed find the same. -/
theorem scanDirectory_unique {scanDone' cueDone' : Nat → Bool} {source' : DirectorySource}
    (hscan : worker.scanDirectory scanDone cueDone rootID components = .ok source)
    (hscan' : worker.scanDirectory scanDone' cueDone' rootID components = .ok source') :
    source = source' :=
  Except.ok.inj ((scanDirectory_never hscan).symm.trans (scanDirectory_never hscan'))

/-! ## Copies -/

/-- What a file reads when it is opened as it was found. -/
def Reads (worker : Worker β ε) (rootID : Text) (file : DirectoryFile) (content : β) : Prop :=
  ∃ snapshot, worker.files.openFile rootID file.components
    (worker.strictFingerprint file.snapshot) = .ok ⟨snapshot, content⟩

/-- The files that a directory without cue sheet offers. -/
def copyOffers (worker : Worker β ε) (rootID : Text) (components path : Path) (content : β) : Prop :=
  ∃ stat snapshot, Inside worker.files rootID components path stat ∧ worker.Audio path stat ∧
    worker.files.openFile rootID (components ++ path) (worker.strictFingerprint stat.snapshot) =
      .ok ⟨snapshot, content⟩

variable {context : Context} {offered : Path → β → Prop} {tree after : FileTree Text β}
  {artifacts final : List (Artifact ε)}

theorem stores_of_copySource {file : DirectoryFile}
    (hcopy : worker.copySource rootID tree file = .ok (after, content)) :
    worker.Reads rootID file content ∧ Stores tree (split file.relative) content after := by
  simp only [copySource, bind_eq_ok, mapError_eq_ok] at hcopy
  obtain ⟨input, hopen, stored, hstore, ⟨⟩, -, ⟨⟩⟩ := hcopy
  exact ⟨⟨input.snapshot, hopen⟩, (stores_of_storeFile hstore).1⟩

/-- The loop over the files keeps what is filed and covers every file. -/
theorem built_of_copyFiles
    (hcopy : (worker.copyFiles context rootID workspace index tree artifacts files).result =
      .ok (final, after)) (hsafe : ∀ file ∈ files, SafePath (split file.relative))
    (hoffered : ∀ file ∈ files, ∀ content, worker.Reads rootID file content →
      offered (split file.relative) content)
    (hfiled : worker.Filed workspace offered tree artifacts) :
    worker.Filed workspace offered after final ∧ artifacts ⊆ final ∧
      ∀ file ∈ files, ∃ content, worker.Reads rootID file content ∧
        ∃ artifact ∈ final, worker.Made workspace (split file.relative) content artifact := by
  induction files generalizing index tree artifacts with
  | nil =>
    cases hcopy
    exact ⟨hfiled, List.Subset.refl _, by simp⟩
  | cons file rest ih =>
    rw [List.forall_mem_cons] at hsafe hoffered
    simp only [copyFiles, Traced.result_bind_eq_ok] at hcopy
    obtain ⟨⟨⟩, -, ⟨next, content⟩, hsource, artifact, hprobe, hcopy⟩ := hcopy
    obtain ⟨hreads, hstores⟩ := stores_of_copySource hsource
    have hmade := made_of_probeFile hsafe.1 hprobe
    have hnext := hfiled.add (hoffered.1 content hreads) hstores hmade
    obtain ⟨hfinal, hsubset, hcovers⟩ := ih hcopy hsafe.2 hoffered.2 hnext
    refine ⟨hfinal, fun old hold => hsubset (List.mem_append_left _ hold),
      List.forall_mem_cons.mpr ⟨⟨content, hreads, artifact, ?_, hmade⟩, hcovers⟩⟩
    exact hsubset (List.mem_append_right _ (List.mem_singleton_self _))

/-- What is built from a directory without cue sheet. -/
theorem built_of_copies
    (hfinds : worker.Finds (Inside worker.files rootID components) components [] files)
    (hcopy : (worker.copyFiles context rootID workspace 0 .empty [] files).result =
      .ok (final, after)) :
    worker.Filed workspace (worker.copyOffers rootID components) after final ∧
      worker.Covers workspace (worker.copyOffers rootID components) final := by
  have hfile (file : DirectoryFile) (hmem : file ∈ files) : ∃ path stat,
      Inside worker.files rootID components path stat ∧ worker.Audio path stat ∧
      SafePath path ∧ split file.relative = path ∧ file = fileAt components [] path stat := by
    obtain ⟨path, stat, hinside, haudio, hsafe, -, rfl⟩ := hfinds.found file hmem
    exact ⟨path, stat, hinside, haudio, hsafe, split_join hsafe, rfl⟩
  have hsafe : ∀ file ∈ files, SafePath (split file.relative) := by
    intro file hmem
    obtain ⟨path, stat, -, -, hsafe, hpath, -⟩ := hfile file hmem
    rwa [hpath]
  have hoffered : ∀ file ∈ files, ∀ content, worker.Reads rootID file content →
      worker.copyOffers rootID components (split file.relative) content := by
    rintro file hmem content ⟨snapshot, hopen⟩
    obtain ⟨path, stat, hinside, haudio, -, hpath, rfl⟩ := hfile file hmem
    rw [hpath]
    exact ⟨stat, snapshot, hinside, haudio, hopen⟩
  obtain ⟨hfiled, -, hcovers⟩ := built_of_copyFiles hcopy hsafe hoffered Filed.nil
  refine ⟨hfiled, ?_⟩
  rintro path content ⟨stat, snapshot, hinside, haudio, hopen⟩
  have hmem := hfinds.all path stat hinside haudio
  obtain ⟨path', stat', -, -, hsafe, hpath, hsame⟩ := hfile _ hmem
  obtain ⟨content', ⟨snapshot', hopen'⟩, artifact, hartifact, hmade⟩ := hcovers _ hmem
  have hcontent : content' = content := by
    have hinput := Except.ok.inj (hopen'.symm.trans hopen)
    injection hinput
  have hsplit : split (fileAt components [] path stat).relative = path := by
    have hcomponents := congrArg DirectoryFile.components hsame
    rw [hpath]
    exact (List.append_cancel_left hcomponents).symm
  rw [hcontent, hsplit] at hmade
  exact ⟨artifact, hartifact, hmade⟩

/-! ## Tracks -/

/-- The tracks that an image is split into, from an index on. -/
inductive Track (tools : CueTools β) (image : β) : Nat → List Nat → Path → β → Prop
  | first {index start : Nat} {rest : List Nat} {content : β}
      (hffmpeg : tools.ffmpeg image start (rest.head?.map (· - start)) = some content) :
      Track tools image index (start :: rest) [trackName index] content
  | later {index start : Nat} {rest : List Nat} {path : Path} {content : β}
      (htrack : Track tools image (index + 1) rest path content) :
      Track tools image index (start :: rest) path content

variable {tools : CueTools β} {image : β}

/-- What splitting an image leaves: the tracks, each where nothing was. -/
structure Split (tools : CueTools β) (image : β) (index : Nat) (starts : List Nat)
    (tree after : FileTree Text β) (names : List Text) : Prop where
  kept : Extends tree after
  nodup : names.Nodup
  absent : ∀ name ∈ names, tree.find [name] = none
  tracks : ∀ name ∈ names, ∃ content, Track tools image index starts [name] content ∧
    after.find [name] = some (.file content)
  all : ∀ path content, Track tools image index starts path content →
    ∃ name ∈ names, path = [name] ∧ after.find [name] = some (.file content)

theorem split_of_splitTracks {starts : List Nat}
    (hsplit : splitTracks context tools image index tree starts = some (after, names)) :
    Split tools image index starts tree after names := by
  induction starts generalizing index tree names with
  | nil =>
    cases hsplit
    exact ⟨.refl _, List.nodup_nil, by simp, by simp, fun _ _ htrack => by cases htrack⟩
  | cons start rest ih =>
    unfold splitTracks at hsplit
    split_ifs at hsplit
    obtain ⟨content, hffmpeg, hsplit⟩ := Option.bind_eq_some_iff.mp hsplit
    obtain ⟨made, hcreate, hsplit⟩ := Option.bind_eq_some_iff.mp hsplit
    obtain ⟨⟨last, others⟩, hrest, hsplit⟩ := Option.bind_eq_some_iff.mp hsplit
    cases hsplit
    obtain ⟨hkept, hnodup, habsent, htracks, hall⟩ := ih hrest
    obtain ⟨hnone, hmade⟩ := FileTree.find_create hcreate
    have hfirst : made.find [trackName index] = some (.file content) := by rw [hmade, if_pos rfl]
    -- The later names are new after the first track, so they are others.
    have hother : ∀ name ∈ others, [name] ≠ [trackName index] := by
      intro name hmem hsame
      have hempty := habsent name hmem
      rw [hsame, hfirst] at hempty
      cases hempty
    refine ⟨fun path node hfind => hkept path node (FileTree.find_of_create hcreate hfind),
      List.nodup_cons.mpr ⟨fun hmem => hother _ hmem rfl, hnodup⟩,
      List.forall_mem_cons.mpr ⟨hnone, fun name hmem => ?_⟩,
      List.forall_mem_cons.mpr ⟨⟨content, .first hffmpeg, hkept _ _ hfirst⟩, fun name hmem => ?_⟩,
      fun path found htrack => ?_⟩
    · have hempty := habsent name hmem
      rwa [hmade, if_neg (hother name hmem)] at hempty
    · obtain ⟨found, htrack, hfind⟩ := htracks name hmem
      exact ⟨found, .later htrack, hfind⟩
    · cases htrack with
      | first hsame =>
        cases hffmpeg.symm.trans hsame
        exact ⟨_, List.mem_cons_self, rfl, hkept _ _ hfirst⟩
      | later htrack =>
        obtain ⟨name, hmem, hpath, hfind⟩ := hall path found htrack
        exact ⟨name, List.mem_cons_of_mem _ hmem, hpath, hfind⟩

theorem track_of_trackContent (htrack : worker.trackContent tree total name = .ok content) :
    SafePath [name] ∧ split name = [name] ∧ tree.find [name] = some (.file content) := by
  unfold trackContent at htrack
  split_ifs at htrack with hname
  push Not at hname
  obtain ⟨clean, hclean⟩ := Option.ne_none_iff_exists'.mp (by simpa using hname.1)
  have hsafe := safeComponent_of_name hclean hname.2
  split at htrack
  · rename_i found hfind
    split_ifs at htrack
    cases htrack
    exact ⟨⟨by simp, by simpa using hsafe⟩, split_of_slash_not_mem hname.2, hfind⟩
  · cases htrack

/-- The loop over the tracks files them and covers every one. -/
theorem built_of_probeTracks
    (hprobe : (worker.probeTracks workspace tree total artifacts names).result = .ok final)
    (hoffered : ∀ name ∈ names, ∀ content, tree.find [name] = some (.file content) →
      offered [name] content) (hnodup : names.Nodup)
    (hnew : ∀ name ∈ names, name ∉ artifacts.map Artifact.relativePath)
    (hfiled : worker.Filed workspace offered tree artifacts) :
    worker.Filed workspace offered tree final ∧ artifacts ⊆ final ∧
      ∀ name ∈ names, ∃ content, tree.find [name] = some (.file content) ∧
        ∃ artifact ∈ final, worker.Made workspace [name] content artifact := by
  induction names generalizing total artifacts with
  | nil =>
    cases hprobe
    exact ⟨hfiled, List.Subset.refl _, by simp⟩
  | cons name rest ih =>
    rw [List.forall_mem_cons] at hoffered hnew
    rw [List.nodup_cons] at hnodup
    obtain ⟨content, hcontent, hprobe⟩ := Traced.result_bind_eq_ok.mp hprobe
    obtain ⟨artifact, hartifact, hprobe⟩ := Traced.result_bind_eq_ok.mp hprobe
    obtain ⟨hsafe, hsplit, hfind⟩ := track_of_trackContent hcontent
    have hmade := made_of_probeFile (by rwa [hsplit]) hartifact
    rw [hsplit] at hmade
    have hjoin : join [name] = name := by rw [← hsplit, join_split]
    have hnext := hfiled.probe (hoffered.1 content hfind) hfind hmade
      (by rw [hjoin]; exact hnew.1)
    have hname : artifact.relativePath = name := by
      obtain ⟨-, _, -, rfl⟩ := hmade
      exact hjoin
    have hrest : ∀ other ∈ rest, other ∉ (artifacts ++ [artifact]).map Artifact.relativePath := by
      intro other hmem
      rw [List.map_append, List.map_singleton, hname, List.mem_append, List.mem_singleton, not_or]
      exact ⟨hnew.2 other hmem, fun heq => hnodup.1 (heq ▸ hmem)⟩
    obtain ⟨hfinal, hsubset, hcovers⟩ := ih hprobe hoffered.2 hnodup.2 hrest hnext
    refine ⟨hfinal, fun old hold => hsubset (List.mem_append_left _ hold),
      List.forall_mem_cons.mpr ⟨⟨content, hfind, artifact, ?_, hmade⟩, hcovers⟩⟩
    exact hsubset (List.mem_append_right _ (List.mem_singleton_self _))

/-- What is built from an image with a cue sheet. -/
theorem built_of_splitAndProbeDirectory {plan : CuePlan}
    (hsplit : (worker.splitAndProbeDirectory context rootID workspace plan).result =
      .ok (final, after)) :
    ∃ tools input, worker.cue = some tools ∧
      worker.files.openFile rootID plan.image.components
        (worker.strictFingerprint plan.image.snapshot) = .ok input ∧
      worker.Filed workspace (Track tools input.content 0 plan.starts) after final ∧
      worker.Covers workspace (Track tools input.content 0 plan.starts) final := by
  unfold splitAndProbeDirectory at hsplit
  split at hsplit
  · cases hsplit
  rename_i tools htools
  simp only [splitAndProbe, splitImage, Traced.result_bind_eq_ok, Traced.result_quiet,
    Traced.result_call, mapError_eq_ok, orFault_eq_ok, Option.ite_none_left_eq_some] at hsplit
  obtain ⟨input, hopen, ⟨tree, names⟩, ⟨-, himage⟩, ⟨⟩, -, found, hprobe, hsplit⟩ := hsplit
  split at hsplit
  · cases hsplit
    obtain ⟨-, hnodup, -, htracks, hall⟩ := split_of_splitTracks himage
    obtain ⟨hfiled, -, hcovers⟩ := built_of_probeTracks hprobe
      (fun name hmem content hfind => by
        obtain ⟨found, htrack, hfound⟩ := htracks name hmem
        rw [hfound] at hfind
        cases hfind
        exact htrack)
      hnodup (by simp) Filed.nil
    refine ⟨tools, input, htools, hopen, hfiled, fun path content htrack => ?_⟩
    obtain ⟨name, hmem, rfl, hfind⟩ := hall path content htrack
    obtain ⟨content', hfind', artifact, hartifact, hmade⟩ := hcovers name hmem
    rw [hfind] at hfind'
    cases hfind'
    exact ⟨artifact, hartifact, hmade⟩
  · cases hsplit

end Worker

end NixConfig.MediaRepair.Materialize
