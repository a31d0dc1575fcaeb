/-
# What is built

An artifact is made from a file: a path, a content, and what the prober says of
them. Whatever a worker builds is described by the files its source has to offer:
every artifact is made from one of them and lies in the tree that was built, no
two have the same path, and every file that is offered has its artifact.

Files are only added to a tree while it is built, and only where nothing is. For
RAR archives that is not the whole story, since the tree holds the quarantine and
the quarantine is removed in the end.
-/

import NixConfig.MediaRepair.Materialize.Worker

namespace NixConfig.MediaRepair.Materialize

open Data Semantics

variable {α β ε : Type}

/-- One tree has all that another has. -/
def Extends (tree after : FileTree Text β) : Prop :=
  ∀ path node, tree.find path = some node → after.find path = some node

theorem Extends.refl (tree : FileTree Text β) : Extends tree tree := fun _ _ hfind => hfind

theorem Extends.trans {first second third : FileTree Text β} (hfirst : Extends first second)
    (hsecond : Extends second third) : Extends first third :=
  fun path node hfind => hsecond path node (hfirst path node hfind)

theorem orFault_eq_ok {fault : Fault} {value : Option α} {a : α} :
    orFault fault value = .ok a ↔ value = some a := by
  cases value with
  | none => simp [orFault]
  | some b => simp [orFault]

namespace Worker

variable {worker : Worker β ε} {workspace : Path}

/-- What a new file does to the tree. -/
structure Stores (tree : FileTree Text β) (path : Path) (content : β)
    (after : FileTree Text β) : Prop where
  absent : tree.find path = none
  kept : Extends tree after
  there : after.find path = some (.file content)
  frame : ∀ other, ¬ other <+: path → after.find other = tree.find other
  /-- On the way there are only directories. -/
  way : ∀ other, other <+: path → other ≠ path → after.find other = some .directory

variable {path other : Path} {content : β} {entry : TarEntry β} {next : Collection β ε}
  {node : FileNode β} {start : FileTree Text β}

theorem stores_create {tree made after : FileTree Text β}
    (hmade : tree.mkdirAll path.dropLast = some made)
    (hcreate : made.create path content = some after) : Stores tree path content after := by
  obtain ⟨habsent, hafter⟩ := FileTree.find_create hcreate
  refine ⟨?_, fun other node hfind => ?_, ?_, fun other hother => ?_, fun other hway hne => ?_⟩
  · rcases hfind : tree.find path with _ | node
    · rfl
    · rw [FileTree.find_of_mkdirAll hmade hfind] at habsent
      cases habsent
  · exact FileTree.find_of_create hcreate (FileTree.find_of_mkdirAll hmade hfind)
  · rw [hafter, if_pos rfl]
  · have hne : other ≠ path := fun heq => hother (heq ▸ List.prefix_rfl)
    have habove : ¬ other <+: path.dropLast :=
      fun hstarts => hother (hstarts.trans (List.dropLast_prefix path))
    rw [hafter, if_neg hne, (FileTree.find_mkdirAll hmade).2, if_neg habove]
  · obtain ⟨rest, rfl⟩ := hway
    have hrest : rest ≠ [] := fun hempty => hne (by rw [hempty, List.append_nil])
    have habove : other <+: (other ++ rest).dropLast := by
      rw [List.dropLast_append_of_ne_nil hrest]
      exact List.prefix_append other _
    rw [hafter, if_neg hne, (FileTree.find_mkdirAll hmade).2, if_pos habove]

variable {found : β} {name component : Text} {artifact : Artifact ε} {state : Collection β ε}
  {item : Path} {paths : List Path}

/-- The files afterwards are those before and the new one. -/
theorem Stores.file_iff {tree after : FileTree Text β} (hstores : Stores tree path content after) :
    after.find other = some (.file found) ↔
      tree.find other = some (.file found) ∨ other = path ∧ found = content := by
  constructor
  · intro hfind
    by_cases hsame : other = path
    · rw [hsame, hstores.there] at hfind
      cases hfind
      exact .inr ⟨hsame, rfl⟩
    · by_cases hway : other <+: path
      · rw [hstores.way other hway hsame] at hfind
        cases hfind
      · rw [hstores.frame other hway] at hfind
        exact .inl hfind
  · rintro (hfind | ⟨rfl, rfl⟩)
    · exact hstores.kept other _ hfind
    · exact hstores.there

theorem file_mkdirAll {tree after : FileTree Text β} (hmkdir : tree.mkdirAll path = some after) :
    after.find other = some (.file found) ↔ tree.find other = some (.file found) := by
  refine ⟨fun hfind => ?_, FileTree.find_of_mkdirAll hmkdir⟩
  rw [(FileTree.find_mkdirAll hmkdir).2] at hfind
  split at hfind
  · cases hfind
  exact hfind

theorem stores_of_storeFile {tree after : FileTree Text β} {size : Int}
    (hstore : worker.storeFile tree name size content = .ok after) :
    Stores tree (split name) content after ∧ worker.length content = size := by
  obtain ⟨made, hmade, hstore⟩ := bind_eq_ok.mp hstore
  obtain ⟨created, hcreated, hstore⟩ := bind_eq_ok.mp hstore
  rw [orFault_eq_ok] at hmade hcreated
  split at hstore
  · rename_i hsize
    cases hstore
    exact ⟨stores_create hmade hcreated, hsize⟩
  · cases hstore

/-- An artifact made from a file with a safe path. -/
def Made (worker : Worker β ε) (workspace path : Path) (content : β) (artifact : Artifact ε) :
    Prop :=
  SafePath path ∧ ∃ evidence, worker.probe path content = .ok evidence ∧
    artifact = worker.artifactOf workspace (join path) content evidence

theorem made_of_probeFile {wrap : Fault → Fault} (hsafe : SafePath (split name))
    (hprobe : (worker.probeFile workspace name content wrap).result = .ok artifact) :
    worker.Made workspace (split name) content artifact := by
  obtain ⟨evidence, hevidence, hartifact⟩ := Traced.result_bind_eq_ok.mp hprobe
  rw [Traced.result_call, mapError_eq_ok] at hevidence
  refine ⟨hsafe, evidence, hevidence, ?_⟩
  rw [join_split]
  exact (Except.ok.inj hartifact).symm

/-- The artifacts are made from files that are offered, and those files are in the
tree, each once. -/
structure Filed (worker : Worker β ε) (workspace : Path) (offered : Path → β → Prop)
    (tree : FileTree Text β) (artifacts : List (Artifact ε)) : Prop where
  made : ∀ artifact ∈ artifacts, ∃ path content, offered path content ∧
    worker.Made workspace path content artifact ∧ tree.find path = some (.file content)
  nodup : (artifacts.map Artifact.relativePath).Nodup

/-- Every file that is offered has its artifact. -/
def Covers (worker : Worker β ε) (workspace : Path) (offered : Path → β → Prop)
    (artifacts : List (Artifact ε)) : Prop :=
  ∀ path content, offered path content → ∃ artifact ∈ artifacts,
    worker.Made workspace path content artifact

variable {offered : Path → β → Prop} {tree after : FileTree Text β} {artifacts : List (Artifact ε)}

theorem Filed.nil : worker.Filed workspace offered tree [] := ⟨by simp, by simp⟩

/-- What has an artifact stays in a tree that grows. -/
theorem Filed.grow (hfiled : worker.Filed workspace offered tree artifacts)
    (hkept : Extends tree after) : worker.Filed workspace offered after artifacts := by
  refine ⟨fun artifact hmem => ?_, hfiled.nodup⟩
  obtain ⟨path, content, hoffered, hmade, hfind⟩ := hfiled.made artifact hmem
  exact ⟨path, content, hoffered, hmade, hkept path _ hfind⟩

/-- A file of the tree that is probed for the first time. -/
theorem Filed.probe (hfiled : worker.Filed workspace offered tree artifacts)
    (hoffered : offered path content) (hfind : tree.find path = some (.file content))
    (hmade : worker.Made workspace path content artifact)
    (hnew : join path ∉ artifacts.map Artifact.relativePath) :
    worker.Filed workspace offered tree (artifacts ++ [artifact]) := by
  refine ⟨List.forall_mem_append.mpr ⟨hfiled.made, List.forall_mem_singleton.mpr
    ⟨path, content, hoffered, hmade, hfind⟩⟩, ?_⟩
  obtain ⟨-, _, -, rfl⟩ := hmade
  rw [List.map_append, List.map_singleton, List.nodup_append_comm, List.singleton_append,
    List.nodup_cons]
  exact ⟨hnew, hfiled.nodup⟩

/-- A file that is stored and probed. -/
theorem Filed.add (hfiled : worker.Filed workspace offered tree artifacts)
    (hoffered : offered path content) (hstores : Stores tree path content after)
    (hmade : worker.Made workspace path content artifact) :
    worker.Filed workspace offered after (artifacts ++ [artifact]) := by
  refine (hfiled.grow hstores.kept).probe hoffered hstores.there hmade fun hmem => ?_
  -- Nothing was at the path before.
  obtain ⟨other, hother, hname⟩ := List.mem_map.mp hmem
  obtain ⟨path', content', -, ⟨hsafe', _, -, rfl⟩, hfind⟩ := hfiled.made other hother
  have hpath : path' = path := by
    rw [← split_join hsafe', ← split_join hmade.1]
    exact congrArg split hname
  rw [hpath, hstores.absent] at hfind
  cases hfind

theorem mem_sortArtifacts :
    artifact ∈ sortArtifacts artifacts ↔ artifact ∈ artifacts := List.mem_insertionSort _

theorem Filed.sort (hfiled : worker.Filed workspace offered tree artifacts) :
    worker.Filed workspace offered tree (sortArtifacts artifacts) := by
  refine ⟨fun artifact hmem => hfiled.made artifact (mem_sortArtifacts.mp hmem), ?_⟩
  exact ((List.perm_insertionSort _ artifacts).map _).nodup_iff.mpr hfiled.nodup

/-! ## Tar archives -/

/-- The files that a tar archive offers. -/
def tarOffers (worker : Worker β ε) (extensions : List Text) (entries : List (TarEntry β))
    (path : Path) (content : β) : Prop :=
  ∃ entry ∈ entries, entry.type = .regular ∧ worker.hasExtension extensions entry.name ∧
    path = split entry.name ∧ content = entry.content

variable {extensions : List Text} {context : Context}

/-- What a member does to the loop. -/
structure Extracted (worker : Worker β ε) (workspace : Path) (extensions : List Text)
    (entry : TarEntry β) (state after : Extraction β ε) : Prop where
  kept : Extends state.tree after.tree
  /-- A media file is stored and gets an artifact, and nothing else does. -/
  added : after.artifacts = state.artifacts ∧
      (entry.type = .regular → ¬ worker.hasExtension extensions entry.name) ∨
    ∃ artifact, after.artifacts = state.artifacts ++ [artifact] ∧ entry.type = .regular ∧
      worker.hasExtension extensions entry.name ∧
      Stores state.tree (split entry.name) entry.content after.tree ∧
      worker.Made workspace (split entry.name) entry.content artifact

theorem extracted_of_extractMember {state after : Extraction β ε} (htype : entry.type = .regular)
    (hsafe : SafePath (split entry.name))
    (hextract : (worker.extractMember workspace extensions state entry.name entry).result =
      .ok after) :
    Extracted worker workspace extensions entry state after := by
  unfold extractMember at hextract
  split at hextract
  · cases hextract
  obtain ⟨tree, hstore, hextract⟩ := Traced.result_bind_eq_ok.mp hextract
  obtain ⟨hstores, -⟩ := stores_of_storeFile hstore
  split_ifs at hextract with hmedia
  · obtain ⟨artifact, hprobe, hextract⟩ := Traced.result_bind_eq_ok.mp hextract
    cases hextract
    exact ⟨hstores.kept, .inr ⟨artifact, rfl, htype, hmedia, hstores,
      made_of_probeFile hsafe hprobe⟩⟩
  · cases hextract
    exact ⟨hstores.kept, .inl ⟨rfl, fun _ => hmedia⟩⟩

theorem extracted_of_extractEntry {state after : Extraction β ε}
    (hextract : (worker.extractEntry workspace extensions state entry).result = .ok after) :
    Extracted worker workspace extensions entry state after := by
  obtain ⟨name, hname, hextract⟩ := Traced.result_bind_eq_ok.mp hextract
  rw [Traced.result_quiet, entryName] at hname
  split at hname
  · cases hname
  rename_i clean hclean
  split_ifs at hname
  cases hname
  cases htype : entry.type with
  | directory =>
    rw [htype] at hextract
    obtain ⟨tree, hmkdir, hextract⟩ := Traced.result_bind_eq_ok.mp hextract
    rw [Traced.result_quiet, orFault_eq_ok] at hmkdir
    cases hextract
    exact ⟨fun path node hfind => FileTree.find_of_mkdirAll hmkdir hfind,
      .inl ⟨rfl, fun hregular => by simp [htype] at hregular⟩⟩
  | regular =>
    simp only [htype] at hextract
    have hfile : (decide (entry.type = .directory)) = false := by simp [htype]
    rw [hfile] at hclean
    obtain rfl := eq_of_safeArchiveName hclean
    obtain ⟨hkept, hadded⟩ :=
      extracted_of_extractMember htype (safePath_of_safeArchiveName hclean) hextract
    exact ⟨hkept, hadded⟩
  | other =>
    rw [htype] at hextract
    cases hextract

/-- The loop over the members keeps what is filed and covers every member. -/
theorem built_of_extractEntries {intact : Bool} {count : Nat} {state final : Extraction β ε}
    {rest : List (TarEntry β)}
    (hextract : (worker.extractEntries context workspace extensions intact count state rest).result =
      .ok final)
    (hoffered : ∀ path content, tarOffers worker extensions rest path content →
      offered path content)
    (hfiled : worker.Filed workspace offered state.tree state.artifacts) :
    worker.Filed workspace offered final.tree final.artifacts ∧
      state.artifacts ⊆ final.artifacts ∧
      worker.Covers workspace (tarOffers worker extensions rest) final.artifacts := by
  -- over the members left, with whatever was extracted before
  induction rest generalizing count state with
  | nil =>
    obtain ⟨-, -, hfinal⟩ := Traced.result_bind_eq_ok.mp hextract
    rw [Traced.result_quiet] at hfinal
    split at hfinal
    · cases hfinal
      refine ⟨hfiled, List.Subset.refl _, ?_⟩
      rintro path content ⟨entry, hentry, -⟩
      cases hentry
    · cases hfinal
  | cons entry rest ih =>
    simp only [extractEntries, Traced.result_bind_eq_ok] at hextract
    obtain ⟨⟨⟩, -, ⟨⟩, -, next, hnext, hextract⟩ := hextract
    obtain ⟨hkept, hadded⟩ := extracted_of_extractEntry hnext
    have hrest : ∀ path content, tarOffers worker extensions rest path content →
        offered path content := by
      rintro path content ⟨other, hother, hfile⟩
      exact hoffered path content ⟨other, List.mem_cons_of_mem entry hother, hfile⟩
    rcases hadded with ⟨hsame, hplain⟩ | ⟨artifact, hnew, htype, hmedia, hstores, hmade⟩
    -- a directory, or a file that is no media file: it is stored and nothing is probed
    · have hnextFiled := hfiled.grow hkept
      rw [← hsame] at hnextFiled ⊢
      obtain ⟨hfinal, hsubset, hcovers⟩ := ih hextract hrest hnextFiled
      refine ⟨hfinal, hsubset, ?_⟩
      rintro path content ⟨other, hother, htype, hmedia, hfile⟩
      rcases List.mem_cons.mp hother with rfl | hother
      · exact absurd hmedia (hplain htype)
      · exact hcovers path content ⟨other, hother, htype, hmedia, hfile⟩
    -- a media file has its artifact, which later members keep
    · have hentry : offered (split entry.name) entry.content :=
        hoffered _ _ ⟨entry, List.mem_cons_self, htype, hmedia, rfl, rfl⟩
      have hnextFiled := hfiled.add hentry hstores hmade
      rw [← hnew] at hnextFiled
      obtain ⟨hfinal, hsubset, hcovers⟩ := ih hextract hrest hnextFiled
      rw [hnew] at hsubset
      refine ⟨hfinal, fun old hold => hsubset (List.mem_append_left _ hold), ?_⟩
      rintro path content ⟨other, hother, htype, hmedia, hpath, hcontent⟩
      rcases List.mem_cons.mp hother with rfl | hother
      · refine ⟨artifact, hsubset (List.mem_append_right _ (List.mem_singleton_self _)), ?_⟩
        rw [hpath, hcontent]
        exact hmade
      · exact hcovers path content ⟨other, hother, htype, hmedia, hpath, hcontent⟩

theorem built_of_extractAndProbe {archive : TarArchive β}
    (hextract : (worker.extractAndProbe context archive workspace extensions).result =
      .ok (artifacts, tree)) :
    worker.Filed workspace (tarOffers worker extensions archive.entries) tree artifacts ∧
      worker.Covers workspace (tarOffers worker extensions archive.entries) artifacts := by
  obtain ⟨state, hstate, hextract⟩ := Traced.result_bind_eq_ok.mp hextract
  split at hextract
  · cases hextract
  cases hextract
  obtain ⟨hfiled, -, hcovers⟩ := built_of_extractEntries hstate (fun _ _ h => h) Filed.nil
  refine ⟨hfiled.sort, fun path content hoffers => ?_⟩
  obtain ⟨artifact, hmem, hmade⟩ := hcovers path content hoffers
  exact ⟨artifact, mem_sortArtifacts.mpr hmem, hmade⟩

/-! ## RAR archives -/

/-- The files that a listing has. -/
def Listed (tools : RarTools β) (archive : β) (entries : List RarEntry) (path : Path)
    (content : β) : Prop :=
  ∃ entry ∈ entries, entry.isDirectory = false ∧ path = split entry.fileName ∧
    tools.unar archive entry.fileName = some content

/-- The files that a RAR archive offers. -/
def rarOffers (worker : Worker β ε) (tools : RarTools β) (archive : β) (extensions : List Text)
    (entries : List RarEntry) (path : Path) (content : β) : Prop :=
  Listed tools archive entries path content ∧ worker.hasExtension extensions (join path)

/-- No name in a tree has a slash. -/
def Slashless (tree : FileTree Text β) : Prop :=
  ∀ path node, tree.find path = some node → ∀ component ∈ path, slash ∉ component

theorem Slashless.mkdirAll (hslashless : Slashless tree)
    (hpath : ∀ component ∈ path, slash ∉ component) (hmkdir : tree.mkdirAll path = some after) :
    Slashless after := by
  intro other node hfind component hmem
  rw [(FileTree.find_mkdirAll hmkdir).2] at hfind
  split_ifs at hfind with hstarts
  · exact hpath component (hstarts.subset hmem)
  · exact hslashless other node hfind component hmem

theorem Slashless.stores (hslashless : Slashless tree)
    (hpath : ∀ component ∈ path, slash ∉ component) (hstores : Stores tree path content after) :
    Slashless after := by
  intro other node hfind component hmem
  by_cases hstarts : other <+: path
  · exact hpath component (hstarts.subset hmem)
  · rw [hstores.frame other hstarts] at hfind
    exact hslashless other node hfind component hmem

theorem split_join_of_slashless (hne : path ≠ []) (hpath : ∀ component ∈ path, slash ∉ component) :
    split (join path) = path :=
  List.splitOn_intercalate slash hpath hne

theorem split_of_slash_not_mem (hslash : slash ∉ name) : split name = [name] := by
  have hsplit : split (join [name]) = [name] :=
    split_join_of_slashless (by simp) (by simpa using hslash)
  rwa [join, List.intercalate_singleton] at hsplit

theorem slash_not_mem_of_mem_split (hmem : component ∈ split name) :
    slash ∉ component := (mem_splitOn hmem).1

theorem slash_not_mem_quarantine (hmem : component ∈ quarantine :: split name) :
    slash ∉ component := by
  rcases List.mem_cons.mp hmem with rfl | hmem
  · decide
  · exact slash_not_mem_of_mem_split hmem

variable {tools : RarTools β} {archive : β}

/-- The listed files have come into the quarantine. -/
def Unpacked (tools : RarTools β) (archive : β) (tree : FileTree Text β) (entries : List RarEntry)
    (after : FileTree Text β) : Prop :=
  Slashless after ∧ ∀ path content, after.find (quarantine :: path) = some (.file content) ↔
    tree.find (quarantine :: path) = some (.file content) ∨
      Listed tools archive entries path content

theorem unpacked_of_unpackEntry {entry : RarEntry} (hslashless : Slashless tree)
    (hunpack : unpackEntry tools archive tree entry = some after) :
    Unpacked tools archive tree [entry] after := by
  unfold unpackEntry at hunpack
  split at hunpack
  · cases hunpack
  rename_i name hname
  split_ifs at hunpack with hdirectory
  · refine ⟨hslashless.mkdirAll (fun _ => slash_not_mem_quarantine) hunpack,
      fun path content => ?_⟩
    rw [file_mkdirAll hunpack]
    refine ⟨.inl, ?_⟩
    rintro (hfind | ⟨other, hother, hfile, -⟩)
    · exact hfind
    · rw [List.mem_singleton.mp hother, hdirectory] at hfile
      cases hfile
  · rw [Bool.not_eq_true] at hdirectory
    rw [hdirectory] at hname
    obtain rfl := eq_of_safeArchiveName hname
    obtain ⟨content, hcontent, hunpack⟩ := Option.bind_eq_some_iff.mp hunpack
    obtain ⟨made, hmade, hunpack⟩ := Option.bind_eq_some_iff.mp hunpack
    have hstores := stores_create hmade hunpack
    refine ⟨hslashless.stores (fun _ => slash_not_mem_quarantine) hstores, fun path found => ?_⟩
    rw [hstores.file_iff]
    refine or_congr_right ⟨?_, ?_⟩
    · rintro ⟨hpath, rfl⟩
      exact ⟨entry, List.mem_singleton_self _, hdirectory, (List.cons.inj hpath).2, hcontent⟩
    · rintro ⟨other, hother, -, rfl, hfound⟩
      obtain rfl := List.mem_singleton.mp hother
      exact ⟨rfl, Option.some.inj (hfound.symm.trans hcontent)⟩

theorem unpacked_of_unpack {entries : List RarEntry} (hslashless : Slashless tree)
    (hunpack : unpack tools archive tree entries = some after) :
    Unpacked tools archive tree entries after := by
  induction entries generalizing tree with
  | nil =>
    cases hunpack
    exact ⟨hslashless, fun path content => by simp [Listed]⟩
  | cons entry rest ih =>
    obtain ⟨next, hnext, hunpack⟩ := Option.bind_eq_some_iff.mp hunpack
    obtain ⟨hnextSlashless, hentry⟩ := unpacked_of_unpackEntry hslashless hnext
    obtain ⟨hafter, hrest⟩ := ih hnextSlashless hunpack
    refine ⟨hafter, fun path content => ?_⟩
    rw [hrest, hentry, or_assoc]
    refine or_congr_right ?_
    simp only [Listed, List.mem_cons, exists_eq_or_imp, exists_eq_left, List.not_mem_nil, or_false]

/-- What a path of the quarantine does to the walk. -/
inductive Collected (worker : Worker β ε) (workspace : Path) (extensions : List Text) (path : Path)
    (state : Collection β ε) : Collection β ε → List Path → Prop
  | directory (hfind : state.tree.find (quarantine :: path) = some .directory) :
      Collected worker workspace extensions path state state (below state.tree path)
  | skipped {content : β} {after : Collection β ε}
      (hfind : state.tree.find (quarantine :: path) = some (.file content))
      (hplain : ¬ worker.hasExtension extensions (join path)) (htree : after.tree = state.tree)
      (hartifacts : after.artifacts = state.artifacts) :
      Collected worker workspace extensions path state after []
  | copied {content : β} {artifact : Artifact ε} {after : Collection β ε}
      (hfind : state.tree.find (quarantine :: path) = some (.file content))
      (hmedia : worker.hasExtension extensions (join path))
      (hstores : Stores state.tree path content after.tree)
      (hmade : worker.Made workspace path content artifact)
      (hartifacts : after.artifacts = state.artifacts ++ [artifact]) :
      Collected worker workspace extensions path state after []

theorem collected_of_collectPath {after : Collection β ε} {next : List Path}
    (hslashless : Slashless state.tree)
    (hcollect : (worker.collectPath workspace extensions state path).result = .ok (after, next)) :
    Collected worker workspace extensions path state after next := by
  unfold collectPath at hcollect
  split at hcollect
  · rename_i hfind
    obtain ⟨-, -, hcollect⟩ := Traced.result_bind_eq_ok.mp hcollect
    cases hcollect
    exact .directory hfind
  · rename_i content hfind
    obtain ⟨name, hname, hcollect⟩ := Traced.result_bind_eq_ok.mp hcollect
    obtain ⟨final, hfile, hcollect⟩ := Traced.result_bind_eq_ok.mp hcollect
    cases hcollect
    rw [Traced.result_quiet, orFault_eq_ok] at hname
    obtain rfl := eq_of_safeArchiveName hname
    -- The root of the quarantine has no name and is never asked for.
    have hne : path ≠ [] := by
      rintro rfl
      cases hname
    have hsplit : split (join path) = path := split_join_of_slashless hne
      fun component hmem =>
        hslashless _ _ hfind component (List.mem_cons_of_mem quarantine hmem)
    unfold collectFile at hfile
    split at hfile
    · cases hfile
    split_ifs at hfile with hmedia
    · obtain ⟨tree, hstore, hfile⟩ := Traced.result_bind_eq_ok.mp hfile
      obtain ⟨artifact, hprobe, hfile⟩ := Traced.result_bind_eq_ok.mp hfile
      cases hfile
      have hsafe := safePath_of_safeArchiveName hname
      have hstores := (stores_of_storeFile hstore).1
      have hmade := made_of_probeFile hsafe hprobe
      rw [hsplit] at hstores hmade
      exact .copied hfind hmedia hstores hmade rfl
    · cases hfile
      exact .skipped hfind hmedia rfl rfl
  · cases hcollect
  · cases hcollect

/-- The walk goes on to the entry on the way to whatever is there. -/
theorem mem_below {directory rest : Path}
    (hfind : tree.find (quarantine :: (directory ++ name :: rest)) = some node) :
    directory ++ [name] ∈ below tree directory := by
  obtain ⟨entry, hentry⟩ : ∃ entry, tree.find (quarantine :: (directory ++ [name])) = some entry := by
    by_cases hlast : rest = []
    · rw [hlast] at hfind
      exact ⟨_, hfind⟩
    · refine ⟨_, FileTree.find_of_prefix (List.cons_prefix_cons.mpr ⟨rfl, ?_⟩) ?_ hfind⟩
      · simp
      · intro hsame
        exact hlast (by simpa using hsame)
  refine List.mem_map.mpr ⟨name, (List.mem_insertionSort _).mpr ?_, rfl⟩
  exact FileTree.mem_names.mpr ⟨entry, hentry⟩

/-- A file is not above another path. -/
theorem eq_of_prefix_of_file (hstart : Extends start tree)
    (hitem : tree.find (quarantine :: item) = some (.file content))
    (hpath : start.find (quarantine :: path) = some node) (hstarts : item <+: path) :
    item = path := by
  by_contra hne
  have hdirectory : start.find (quarantine :: item) = some .directory :=
    FileTree.find_of_prefix (List.cons_prefix_cons.mpr ⟨rfl, hstarts⟩)
      (fun hsame => hne (List.cons.inj hsame).2) hpath
  rw [hstart _ _ hdirectory] at hitem
  cases hitem

/-- What a path leaves to the walk: everything below it that was there at the
start, unless it has an artifact. -/
theorem Collected.covers (hcollected : Collected worker workspace extensions item state next paths)
    (hstart : Extends start state.tree)
    (hpath : start.find (quarantine :: path) = some (.file content))
    (hmedia : worker.hasExtension extensions (join path)) (hstarts : item <+: path) :
    (∃ artifact ∈ next.artifacts, worker.Made workspace path content artifact) ∨
      ∃ other ∈ paths, other <+: path := by
  cases hcollected with
  | directory hfind =>
    obtain ⟨rest, rfl⟩ := hstarts
    cases rest with
    | nil =>
      rw [List.append_nil] at hpath
      rw [hstart _ _ hpath] at hfind
      cases hfind
    | cons name rest =>
      -- The entry on the way was there at the start, so it still is.
      exact .inr ⟨item ++ [name], mem_below (hstart _ _ hpath), by simp⟩
  | skipped hfind hplain _ _ =>
    obtain rfl := eq_of_prefix_of_file hstart hfind hpath hstarts
    exact absurd hmedia hplain
  | copied hfind _ _ hmade hartifacts =>
    obtain rfl := eq_of_prefix_of_file hstart hfind hpath hstarts
    rw [hstart _ _ hpath] at hfind
    cases hfind
    exact .inl ⟨_, by rw [hartifacts]; simp, hmade⟩

/-- A path keeps what there is. -/
theorem Collected.kept (hcollected : Collected worker workspace extensions item state next paths)
    (hslashless : Slashless state.tree) :
    Extends state.tree next.tree ∧ Slashless next.tree ∧ state.artifacts ⊆ next.artifacts := by
  cases hcollected with
  | directory _ => exact ⟨.refl _, hslashless, List.Subset.refl _⟩
  | skipped _ _ htree hartifacts =>
    rw [htree, hartifacts]
    exact ⟨.refl _, hslashless, List.Subset.refl _⟩
  | copied _ _ hstores hmade hartifacts =>
    rw [hartifacts]
    exact ⟨hstores.kept, hslashless.stores
      (fun component hmem => (hmade.1.plain component hmem).slash_not_mem) hstores,
      List.subset_append_left _ _⟩

/-- What one path keeps true of the state and of the paths that are left, the walk
does. -/
theorem law_of_collect (law : Collection β ε → List Path → Prop) {left : Nat}
    {final : Collection β ε} {todo : List Path}
    (hcollect : (worker.collect context workspace extensions left state todo).result = .ok final)
    (hlaw : law state todo)
    (hstep : ∀ {state next : Collection β ε} {item : Path} {rest paths : List Path},
      law state (item :: rest) →
      (worker.collectPath workspace extensions state item).result = .ok (next, paths) →
      law next (paths ++ rest)) : law final [] := by
  fun_induction collect worker context workspace extensions left state todo with
  | case1 left state =>
    cases hcollect
    exact hlaw
  | case2 state item rest =>
    obtain ⟨-, -, hcollect⟩ := Traced.result_bind_eq_ok.mp hcollect
    cases hcollect
  | case3 left state item rest ih =>
    obtain ⟨-, -, hcollect⟩ := Traced.result_bind_eq_ok.mp hcollect
    obtain ⟨⟨next, paths⟩, hpath, hcollect⟩ := Traced.result_bind_eq_ok.mp hcollect
    exact ih _ hcollect (hstep hlaw hpath)

/-- What was in the quarantine at the start has its artifact, or is still to come. -/
structure Pending (worker : Worker β ε) (workspace : Path) (extensions : List Text)
    (start : FileTree Text β) (state : Collection β ε) (todo : List Path) : Prop where
  slashless : Slashless state.tree
  kept : Extends start state.tree
  covered : ∀ path content, start.find (quarantine :: path) = some (.file content) →
    worker.hasExtension extensions (join path) →
    (∃ artifact ∈ state.artifacts, worker.Made workspace path content artifact) ∨
      ∃ item ∈ todo, item <+: path

theorem Pending.step {rest : List Path}
    (hpending : Pending worker workspace extensions start state (item :: rest))
    (hpath : (worker.collectPath workspace extensions state item).result = .ok (next, paths)) :
    Pending worker workspace extensions start next (paths ++ rest) := by
  have hcollected := collected_of_collectPath hpending.slashless hpath
  obtain ⟨hkept, hslashless, hsubset⟩ := hcollected.kept hpending.slashless
  refine ⟨hslashless, hpending.kept.trans hkept, fun path content hfind hmedia => ?_⟩
  obtain ⟨artifact, hmem, hmade⟩ | ⟨other, hother, hstarts⟩ :=
    hpending.covered path content hfind hmedia
  · exact .inl ⟨artifact, hsubset hmem, hmade⟩
  rcases List.mem_cons.mp hother with rfl | hother
  · obtain hmade | ⟨deeper, hdeeper, hstarts⟩ :=
      hcollected.covers hpending.kept hfind hmedia hstarts
    · exact .inl hmade
    · exact .inr ⟨deeper, List.mem_append_left _ hdeeper, hstarts⟩
  · exact .inr ⟨other, List.mem_append_right _ hother, hstarts⟩

/-- Nothing was copied into the quarantine, and what was found is filed. -/
structure Aside (worker : Worker β ε) (workspace : Path) (offered : Path → β → Prop)
    (start : FileTree Text β) (state : Collection β ε) : Prop where
  slashless : Slashless state.tree
  untouched : ∀ path, state.tree.find (quarantine :: path) = start.find (quarantine :: path)
  filed : worker.Filed workspace offered state.tree state.artifacts

theorem Aside.step (haside : Aside worker workspace offered start state)
    (hoffered : ∀ path content, start.find (quarantine :: path) = some (.file content) →
      worker.hasExtension extensions (join path) → offered path content)
    (hclean : ∀ path content, offered path content → path.head? ≠ some quarantine)
    (hpath : (worker.collectPath workspace extensions state item).result = .ok (next, paths)) :
    Aside worker workspace offered start next := by
  have hcollected := collected_of_collectPath haside.slashless hpath
  obtain ⟨-, hslashless, -⟩ := hcollected.kept haside.slashless
  cases hcollected with
  | directory _ => exact haside
  | skipped _ _ htree hartifacts =>
    refine ⟨hslashless, ?_, ?_⟩
    · rw [htree]
      exact haside.untouched
    · rw [htree, hartifacts]
      exact haside.filed
  | copied hfind hmedia hstores hmade hartifacts =>
    rw [haside.untouched] at hfind
    have hitem := hoffered item _ hfind hmedia
    refine ⟨hslashless, fun path => ?_, ?_⟩
    · -- The copy lies outside the quarantine.
      rw [hstores.frame _ ?_, haside.untouched]
      intro hstarts
      apply hclean item _ hitem
      obtain ⟨more, rfl⟩ := hstarts
      rfl
    · rw [hartifacts]
      exact haside.filed.add hitem hstores hmade

/-- The quarantine before the walk. -/
theorem listed_of_extract (hmkdir : FileTree.empty.mkdir [quarantine] = some tree)
    (hextract : extract tools archive tree = .ok start) :
    ∃ listing, tools.lsar archive = some listing ∧ Slashless start ∧
      ∀ path content, start.find (quarantine :: path) = some (.file content) ↔
        Listed tools archive listing.contents path content := by
  obtain ⟨listing, hlisting, hextract⟩ := bind_eq_ok.mp hextract
  obtain ⟨-, -, hunpack⟩ := bind_eq_ok.mp hextract
  rw [orFault_eq_ok] at hlisting hunpack
  have hfind := (FileTree.find_mkdir hmkdir).2
  have hempty (path : Path) (node : FileNode β) (hnode : tree.find path = some node) :
      path = [] ∨ path = [quarantine] ∧ node = .directory := by
    rw [hfind] at hnode
    split_ifs at hnode with hpath
    · exact .inr ⟨hpath, (Option.some.inj hnode).symm⟩
    · by_cases hpath : path = []
      · exact .inl hpath
      · rw [FileTree.find_empty hpath] at hnode
        cases hnode
  have hslashless : Slashless tree := by
    intro path node hnode component hmem
    rcases hempty path node hnode with rfl | ⟨rfl, -⟩
    · cases hmem
    · rw [List.mem_singleton.mp hmem]
      decide
  obtain ⟨hstart, hfiles⟩ := unpacked_of_unpack hslashless hunpack
  refine ⟨listing, hlisting, hstart, fun path content => ?_⟩
  rw [hfiles]
  refine or_iff_right fun hnode => ?_
  obtain hpath | ⟨-, hdirectory⟩ := hempty _ _ hnode
  · cases hpath
  · cases hdirectory

/-- What is built from a RAR archive. The quarantine is gone, and so is whatever
was copied into it. -/
theorem built_of_buildRAR
    (hbuild : (worker.buildRAR context tools archive workspace extensions).result =
      .ok (artifacts, tree)) :
    ∃ listing, tools.lsar archive = some listing ∧
      worker.Covers workspace (rarOffers worker tools archive extensions listing.contents)
        artifacts ∧
      (∀ path, tree.find (quarantine :: path) = none) ∧
      ((∀ path content, rarOffers worker tools archive extensions listing.contents path content →
          path.head? ≠ some quarantine) →
        worker.Filed workspace (rarOffers worker tools archive extensions listing.contents) tree
          artifacts) := by
  simp only [buildRAR, collectExtractedMedia, Traced.result_bind_eq_ok, Traced.result_quiet,
    orFault_eq_ok] at hbuild
  obtain ⟨made, hmade, start, hextract, _, ⟨state, hwalk, hcollect⟩, ⟨⟩⟩ := hbuild
  split at hcollect
  · cases hcollect
  cases hcollect
  obtain ⟨listing, hlisting, hslashless, hfiles⟩ := listed_of_extract hmade hextract
  have hoffered (path : Path) (content : β)
      (hfind : start.find (quarantine :: path) = some (.file content))
      (hmedia : worker.hasExtension extensions (join path)) :
      rarOffers worker tools archive extensions listing.contents path content :=
    ⟨(hfiles path content).mp hfind, hmedia⟩
  -- The walk starts with the entries of the quarantine.
  have hpending : Pending worker workspace extensions start ⟨start, 0, []⟩ (below start []) := by
    refine ⟨hslashless, .refl _, fun path content hfind hmedia => .inr ?_⟩
    obtain ⟨entry, -, -, hpath, -⟩ := (hfiles path content).mp hfind
    obtain ⟨name, rest, rfl⟩ := List.exists_cons_of_ne_nil (hpath ▸ split_ne_nil entry.fileName)
    exact ⟨[name], mem_below hfind, by simp⟩
  refine ⟨listing, hlisting, ?_, fun path => ?_, fun hclean => ?_⟩
  · have hdone := law_of_collect (Pending worker workspace extensions start) hwalk hpending
      fun hlaw hpath => hlaw.step hpath
    rintro path content ⟨hlisted, hmedia⟩
    obtain ⟨artifact, hmem, hmade⟩ | ⟨_, hitem, -⟩ :=
      hdone.covered path content ((hfiles path content).mpr hlisted) hmedia
    · exact ⟨artifact, mem_sortArtifacts.mpr hmem, hmade⟩
    · cases hitem
  · rw [FileTree.find_remove, if_pos (List.cons_prefix_cons.mpr ⟨rfl, List.nil_prefix⟩)]
  · have hstart : Aside worker workspace
        (rarOffers worker tools archive extensions listing.contents) start ⟨start, 0, []⟩ :=
      ⟨hslashless, fun _ => rfl, Filed.nil⟩
    have haside := law_of_collect (fun state _ => Aside worker workspace _ start state) hwalk hstart
      fun hlaw hpath => hlaw.step hoffered hclean hpath
    refine ⟨fun artifact hmem => ?_, haside.filed.sort.nodup⟩
    obtain ⟨path, content, hoffers, hmade, hfind⟩ := haside.filed.sort.made artifact hmem
    refine ⟨path, content, hoffers, hmade, ?_⟩
    rw [FileTree.find_remove, if_neg, hfind]
    intro hstarts
    apply hclean path content hoffers
    obtain ⟨more, rfl⟩ := hstarts
    rfl

end Worker

end NixConfig.MediaRepair.Materialize
