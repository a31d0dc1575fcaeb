/-
# File trees

A file tree says what every path below a directory stands for: nothing, a
directory, a file with its content, or something else. Whatever there is lies in
a directory, and the tree carries the proof. Its operations are those of a file
system that can only fail for what the tree holds: a directory is made where
there is none, a new file is never written over another, a file is replaced, and
a subtree is removed.

Each operation is described by what a path stands for afterwards. A failed
operation returns nothing.
-/

import Mathlib.Data.List.Infix
import NixConfig.Data.Table

namespace NixConfig.Data

variable {ν β : Type}

/-- What a path stands for. -/
inductive FileNode (β : Type)
  | directory
  | file (content : β)
  /-- A link, or a special file. -/
  | special

structure FileEntry (ν β : Type) where
  path : List ν
  node : FileNode β

/-- Entries by path. -/
abbrev FileEntries (ν β : Type) := Table (FileEntry.path : FileEntry ν β → List ν)

variable [DecidableEq ν]

/-- What a path stands for among some entries, below a directory that is there. -/
def FileEntries.node (entries : FileEntries ν β) (path : List ν) : Option (FileNode β) :=
  if path = [] then some .directory else (entries.find path).map FileEntry.node

/-- The entries below a directory. -/
structure FileTree (ν β : Type) [DecidableEq ν] where
  entries : FileEntries ν β
  /-- Whatever is there lies in a directory. -/
  closed : ∀ path, path ≠ [] → entries.node path ≠ none →
    entries.node path.dropLast = some .directory

namespace FileTree

/-- What a path stands for. -/
def find (tree : FileTree ν β) (path : List ν) : Option (FileNode β) := tree.entries.node path

@[simp] theorem find_nil (tree : FileTree ν β) : tree.find [] = some .directory := by
  rw [find, FileEntries.node, if_pos rfl]

variable {tree after : FileTree ν β}

variable {path other : List ν} {content : β}

theorem find_dropLast {node : FileNode β} (hpath : path ≠ []) (hfind : tree.find path = some node) :
    tree.find path.dropLast = some .directory := by
  refine tree.closed path hpath ?_
  rw [find] at hfind
  simp [hfind]

/-- Above whatever is there, there are directories. -/
theorem find_of_prefix {above : List ν} {node : FileNode β} (hstarts : above <+: path)
    (hne : above ≠ path) (hfind : tree.find path = some node) :
    tree.find above = some .directory := by
  obtain ⟨rest, rfl⟩ := hstarts
  induction rest using List.reverseRecOn generalizing node with
  | nil => exact absurd (List.append_nil above).symm hne
  | append_singleton rest name ih =>
    have hparent := find_dropLast (by simp) hfind
    rw [← List.append_assoc, List.dropLast_concat] at hparent
    by_cases hrest : rest = []
    · rwa [hrest, List.append_nil] at hparent
    · exact ih (fun hsame => hrest (List.self_eq_append_right.mp hsame)) hparent

/-- An empty directory. -/
def empty : FileTree ν β where
  entries := Table.empty
  closed path hpath hnode := by simp [FileEntries.node, hpath] at hnode

theorem find_empty (hpath : path ≠ []) :
    (empty : FileTree ν β).find path = none := by
  simp [find, FileEntries.node, empty, hpath]

instance (tree : FileTree ν β) (path : List ν) : Decidable (tree.find path = some .directory) :=
  match tree.find path with
  | some .directory => .isTrue rfl
  | some (.file _) => .isFalse nofun
  | some .special => .isFalse nofun
  | none => .isFalse nofun

/-! ## Making and writing -/

/-- Put a node into a directory, over anything but a directory. -/
def insert (tree : FileTree ν β) (path : List ν) (node : FileNode β) (hpath : path ≠ [])
    (hparent : tree.find path.dropLast = some .directory)
    (hplace : tree.find path ≠ some .directory) : FileTree ν β where
  entries := tree.entries.save ⟨path, node⟩
  closed other hother hnode := by
    have hnodes (q : List ν) : FileEntries.node (tree.entries.save ⟨path, node⟩) q =
        if q = path then some node else tree.find q := by
      by_cases hq : q = []
      · simp [FileEntries.node, hq, hpath.symm]
      · rw [FileEntries.node, if_neg hq, Table.find_save, find, FileEntries.node, if_neg hq]
        split <;> rfl
    have hne : path.dropLast ≠ path := by
      intro hsame
      have hlength := congrArg List.length hsame
      rw [List.length_dropLast] at hlength
      have hpos := List.length_pos_iff.mpr hpath
      omega
    rw [hnodes] at hnode ⊢
    by_cases hsame : other = path
    · rw [hsame, if_neg hne]
      exact hparent
    · rw [if_neg hsame] at hnode
      have hdir : tree.find other.dropLast = some .directory := tree.closed other hother hnode
      -- Nothing lies below the place, since it is no directory.
      have habove : other.dropLast ≠ path := fun heq => hplace (heq ▸ hdir)
      rw [if_neg habove]
      exact hdir

theorem find_insert {node : FileNode β} {hpath : path ≠ []}
    {hparent : tree.find path.dropLast = some .directory}
    {hplace : tree.find path ≠ some .directory} (other : List ν) :
    (tree.insert path node hpath hparent hplace).find other =
      if other = path then some node else tree.find other := by
  by_cases hother : other = []
  · simp [hother, hpath.symm]
  · rw [find, insert, FileEntries.node, if_neg hother, Table.find_save, find, FileEntries.node,
      if_neg hother]
    split <;> rfl

/-- Make a directory, or leave one that is there. -/
def mkdir (tree : FileTree ν β) (path : List ν) : Option (FileTree ν β) :=
  match hfind : tree.find path with
  | some .directory => some tree
  | some _ => none
  | none =>
    if h : path ≠ [] ∧ tree.find path.dropLast = some .directory then
      some (tree.insert path .directory h.1 h.2 (by simp [hfind]))
    else none

theorem find_mkdir (hmkdir : tree.mkdir path = some after) :
    (tree.find path = none ∨ tree.find path = some .directory) ∧
      ∀ other, after.find other = if other = path then some .directory else tree.find other := by
  unfold mkdir at hmkdir
  split at hmkdir
  · rename_i hfind
    cases hmkdir
    refine ⟨.inr hfind, fun other => ?_⟩
    split_ifs with hother
    · rw [hother, hfind]
    · rfl
  · cases hmkdir
  · rename_i hfind
    split at hmkdir
    · cases hmkdir
      exact ⟨.inl hfind, find_insert⟩
    · cases hmkdir

/-- Make the directories on the way from one path on. -/
def mkdirFrom (tree : FileTree ν β) (done : List ν) : List ν → Option (FileTree ν β)
  | [] => some tree
  | name :: rest => do
    let tree ← tree.mkdir (done ++ [name])
    tree.mkdirFrom (done ++ [name]) rest

/-- `os.MkdirAll`: make a directory and those above it. -/
def mkdirAll (tree : FileTree ν β) (path : List ν) : Option (FileTree ν β) := tree.mkdirFrom [] path

theorem find_mkdirFrom {done rest : List ν} (hmkdir : tree.mkdirFrom done rest = some after)
    (other : List ν) :
    ((∃ made, made ≠ [] ∧ made <+: rest ∧ other = done ++ made) →
      (tree.find other = none ∨ tree.find other = some .directory) ∧
        after.find other = some .directory) ∧
    ((¬ ∃ made, made ≠ [] ∧ made <+: rest ∧ other = done ++ made) →
      after.find other = tree.find other) := by
  induction rest generalizing tree done with
  | nil =>
    cases hmkdir
    refine ⟨?_, fun _ => rfl⟩
    rintro ⟨made, hmade, hstarts, -⟩
    exact absurd (List.prefix_nil.mp hstarts) hmade
  | cons name rest ih =>
    obtain ⟨next, hnext, hrest⟩ := Option.bind_eq_some_iff.mp hmkdir
    obtain ⟨hplace, hfind⟩ := find_mkdir hnext
    have ih := ih hrest
    -- A path on the way is the first one, or lies below it.
    have hway : (∃ made, made ≠ [] ∧ made <+: name :: rest ∧ other = done ++ made) ↔
        other = done ++ [name] ∨
          ∃ made, made ≠ [] ∧ made <+: rest ∧ other = done ++ [name] ++ made := by
      constructor
      · rintro ⟨made, hmade, hstarts, rfl⟩
        obtain ⟨first, more, rfl⟩ := List.exists_cons_of_ne_nil hmade
        obtain ⟨rfl, hmore⟩ := List.cons_prefix_cons.mp hstarts
        by_cases hempty : more = []
        · exact .inl (by rw [hempty])
        · exact .inr ⟨more, hempty, hmore, by simp⟩
      · rintro (rfl | ⟨made, -, hstarts, rfl⟩)
        · exact ⟨[name], by simp, by simp, rfl⟩
        · exact ⟨name :: made, by simp, List.cons_prefix_cons.mpr ⟨rfl, hstarts⟩, by simp⟩
    rw [hway]
    have hself : ¬ ∃ made, made ≠ [] ∧ made <+: rest ∧
        done ++ [name] = done ++ [name] ++ made := by
      rintro ⟨made, hmade, -, hsame⟩
      exact hmade (List.self_eq_append_right.mp hsame)
    constructor
    · rintro (rfl | hbelow)
      · refine ⟨hplace, ?_⟩
        rw [ih.2 hself, hfind, if_pos rfl]
      · have hne : other ≠ done ++ [name] := by
          rintro rfl
          exact hself hbelow
        obtain ⟨hbefore, hafter⟩ := ih.1 hbelow
        rw [hfind, if_neg hne] at hbefore
        exact ⟨hbefore, hafter⟩
    · intro hoff
      rw [not_or] at hoff
      rw [ih.2 hoff.2, hfind, if_neg hoff.1]

/-- The paths on the way are directories afterwards and were nothing else before. -/
theorem find_mkdirAll (hmkdir : tree.mkdirAll path = some after) :
    (∀ other, other <+: path → tree.find other = none ∨ tree.find other = some .directory) ∧
      ∀ other, after.find other =
        if other <+: path then some .directory else tree.find other := by
  have hway (other : List ν) : (∃ made, made ≠ [] ∧ made <+: path ∧ other = [] ++ made) ↔
      other ≠ [] ∧ other <+: path := by simp
  refine ⟨fun other hstarts => ?_, fun other => ?_⟩
  · by_cases hempty : other = []
    · simp [hempty]
    · exact ((find_mkdirFrom hmkdir other).1 ((hway other).mpr ⟨hempty, hstarts⟩)).1
  · by_cases hempty : other = []
    · simp [hempty]
    · split_ifs with hstarts
      · exact ((find_mkdirFrom hmkdir other).1 ((hway other).mpr ⟨hempty, hstarts⟩)).2
      · refine (find_mkdirFrom hmkdir other).2 fun hmade => ?_
        exact hstarts ((hway other).mp hmade).2

/-- What was there stays. -/
theorem find_of_mkdirAll {node : FileNode β} (hmkdir : tree.mkdirAll path = some after)
    (hfind : tree.find other = some node) :
    after.find other = some node := by
  obtain ⟨hplace, hafter⟩ := find_mkdirAll hmkdir
  rw [hafter]
  split_ifs with hstarts
  · rcases hplace other hstarts with hnone | hdir
    · simp [hnone] at hfind
    · rw [← hfind, hdir]
  · exact hfind

/-- Write a file where there is nothing. -/
def create (tree : FileTree ν β) (path : List ν) (content : β) : Option (FileTree ν β) :=
  match hfind : tree.find path with
  | some _ => none
  | none =>
    if h : path ≠ [] ∧ tree.find path.dropLast = some .directory then
      some (tree.insert path (.file content) h.1 h.2 (by simp [hfind]))
    else none

theorem find_create (hcreate : tree.create path content = some after) :
    tree.find path = none ∧
      ∀ other, after.find other =
        if other = path then some (.file content) else tree.find other := by
  unfold create at hcreate
  split at hcreate
  · cases hcreate
  rename_i hfind
  split at hcreate
  · cases hcreate
    exact ⟨hfind, find_insert⟩
  · cases hcreate

/-- What was there stays. -/
theorem find_of_create {node : FileNode β} (hcreate : tree.create path content = some after)
    (hfind : tree.find other = some node) : after.find other = some node := by
  obtain ⟨habsent, hafter⟩ := find_create hcreate
  have hne : other ≠ path := by
    rintro rfl
    simp [habsent] at hfind
  rw [hafter, if_neg hne, hfind]

/-- Write a file, over another one if there is one. -/
def write (tree : FileTree ν β) (path : List ν) (content : β) : Option (FileTree ν β) :=
  match hfind : tree.find path with
  | some .directory => none
  | some .special => none
  | some (.file _) | none =>
    if h : path ≠ [] ∧ tree.find path.dropLast = some .directory then
      some (tree.insert path (.file content) h.1 h.2 (by simp [hfind]))
    else none

theorem find_write (hwrite : tree.write path content = some after) (other : List ν) :
    after.find other = if other = path then some (.file content) else tree.find other := by
  unfold write at hwrite
  split at hwrite
  · cases hwrite
  cases hwrite
  all_goals
    split at hwrite
    · cases hwrite
      exact find_insert other
    · cases hwrite

/-! ## Removing and reading -/

/-- The entries that do not lie at or below a path. -/
def outside (entries : FileEntries ν β) (path : List ν) : FileEntries ν β :=
  ⟨entries.rows.filter fun entry => ¬ path <+: entry.path,
    entries.nodup.sublist (List.filter_sublist.map _)⟩

theorem node_outside {entries : FileEntries ν β} (hpath : path ≠ []) (other : List ν) :
    (outside entries path).node other = if path <+: other then none else entries.node other := by
  by_cases hother : other = []
  · simp [FileEntries.node, hother, hpath]
  rw [FileEntries.node, if_neg hother, FileEntries.node, if_neg hother]
  have hfind : (outside entries path).find other =
      if path <+: other then none else entries.find other := by
    simp only [Table.find, outside, List.find?_filter]
    by_cases hbelow : path <+: other
    · rw [if_pos hbelow, List.find?_eq_none]
      intro entry _ hentry
      simp only [decide_not, Bool.not_eq_eq_eq_not, Bool.not_true,
        decide_eq_false_iff_not, decide_eq_true_eq] at hentry
      exact hentry.1 (hentry.2 ▸ hbelow)
    · rw [if_neg hbelow]
      congr 1
      funext entry
      by_cases hkey : entry.path = other
      · simp [hkey, hbelow]
      · simp [hkey]
  rw [hfind]
  split <;> rfl

/-- `os.RemoveAll`, of something below the directory. -/
def remove (tree : FileTree ν β) (path : List ν) (hpath : path ≠ []) : FileTree ν β where
  entries := outside tree.entries path
  closed other hother hnode := by
    rw [node_outside hpath] at hnode ⊢
    split_ifs at hnode with hbelow
    · exact absurd rfl hnode
    · have habove : ¬ path <+: other.dropLast :=
        fun hstarts => hbelow (hstarts.trans (List.dropLast_prefix other))
      rw [if_neg habove]
      exact tree.closed other hother hnode

theorem find_remove {hpath : path ≠ []} (other : List ν) :
    (tree.remove path hpath).find other = if path <+: other then none else tree.find other :=
  node_outside hpath other

/-- The names in a directory. -/
def names (tree : FileTree ν β) (directory : List ν) : List ν :=
  tree.entries.rows.filterMap fun entry =>
    if entry.path.dropLast = directory then entry.path.getLast? else none

theorem mem_names {directory : List ν} {name : ν} :
    name ∈ tree.names directory ↔ ∃ node, tree.find (directory ++ [name]) = some node := by
  have hne : directory ++ [name] ≠ [] := by simp
  rw [find, FileEntries.node, if_neg hne]
  constructor
  · intro hmem
    obtain ⟨entry, hentry, hname⟩ := List.mem_filterMap.mp hmem
    split at hname
    · rename_i hdirectory
      have hpath : entry.path = directory ++ [name] := by
        rw [← hdirectory]
        exact (List.dropLast_append_getLast? name hname).symm
      have hfind := Table.mem_rows_iff.mp hentry
      rw [hpath] at hfind
      exact ⟨entry.node, by rw [hfind]; rfl⟩
    · cases hname
  · rintro ⟨node, hnode⟩
    obtain ⟨entry, hfind, -⟩ := Option.map_eq_some_iff.mp hnode
    have hpath : entry.path = directory ++ [name] := Table.key_of_find hfind
    refine List.mem_filterMap.mpr ⟨entry, Table.mem_of_find hfind, ?_⟩
    simp [hpath]

end FileTree

end NixConfig.Data
