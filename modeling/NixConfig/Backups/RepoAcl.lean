/-
# Access to backup files

The account that copies backups elsewhere gets access to each file of the
repository from a job that walks the tree. The first run takes every path. A
later run takes only those that were modified after the marker, which every run
touches when it is done. Meanwhile, backups go on, and a path may appear at any
moment: before the walk reads its directory, after that, or after the marker was
touched.

The marker is touched after the walk. A path that appears in between is older
than the marker and was not seen, and no later run takes it. What can be shown is
the rest: a run has granted everything that there is when it ends, as long as new
paths appear between runs, or where the walk has still to come by.

The tree only grows, and time does not go back. Adding an entry modifies its
directory.
-/

import Mathlib.Data.List.Induction
import Mathlib.Data.List.Sort
import Mathlib.Data.String.Basic
import NixConfig.Data.Table
import NixConfig.Semantics.Run

namespace NixConfig.Backups

open Data Semantics

/-! ## Trees -/

/-- The names below the root of the repository. -/
abbrev Path := List String

structure Node where
  path : Path
  isDir : Bool
  mtime : Nat
  deriving DecidableEq

abbrev Tree := Table Node.path

/-- `.offload-acl-initialized` -/
def markerPath : Path := [".offload-acl-initialized"]

def configPath : Path := ["config"]

/-- The paths in a directory, as `ReadDir` sorts them. -/
def children (tree : Tree) (directory : Path) : List Path :=
  let names := tree.rows.filterMap fun node =>
    if node.path.dropLast = directory then node.path.getLast? else none
  (names.insertionSort (· ≤ ·)).map fun name => directory ++ [name]

/-- Modify a node that is there. -/
def touchNode (tree : Tree) (path : Path) (now : Nat) : Tree :=
  match tree.find path with
  | some node => tree.save { node with mtime := now }
  | none => tree

/-- Add a node to its directory. -/
def addNode (tree : Tree) (path : Path) (isDir : Bool) (now : Nat) : Tree :=
  touchNode (tree.save ⟨path, isDir, now⟩) path.dropLast now

/-! ## Runs of `Sync` -/

/-- What is left of a walk: a path to look at, or a directory to read. -/
inductive Item
  | visit (path : Path)
  | read (path : Path)

/-- A run after its first checks. -/
structure SyncRun where
  /-- Nothing for a full scan. -/
  cutoff : Option Nat
  todo : List Item
  paths : List Path
  directories : List Path
  /-- Whether `GrantAccess` and `GrantDefault` were called. -/
  granted : Bool

structure State where
  tree : Tree
  clock : Nat
  /-- The paths that were passed to `GrantAccess`. -/
  access : List Path
  /-- The directories that were passed to `GrantDefault`. -/
  defaults : List Path
  run : Option SyncRun

inductive Event
  /-- Time passes. -/
  | tick (now : Nat)
  /-- The writer creates a file or a directory. -/
  | create (path : Path) (isDir : Bool)
  /-- `Sync` starts. -/
  | start
  /-- The walk goes on by one `Info` or one `ReadDir`. -/
  | walk
  /-- The walk is done, and access is granted. -/
  | grant
  /-- The marker is touched, and `Sync` returns. -/
  | touch
  deriving DecidableEq

namespace State

/-- The cutoff of a run: none if there is no marker, or if it is older than the
configuration. -/
def cutoff (state : State) (config : Node) : Option Nat :=
  match state.tree.find markerPath with
  | none => none
  | some marker => if marker.mtime < config.mtime then none else some marker.mtime

/-- `Sync` up to the walk. -/
def begin (state : State) : State :=
  match state.tree.find [] with
  | some ⟨_, true, _⟩ =>
    let state := { state with access := [] :: state.access, defaults := [] :: state.defaults }
    match state.tree.find configPath with
    | some ⟨path, false, mtime⟩ =>
      { state with run := some ⟨state.cutoff ⟨path, false, mtime⟩, [.visit []], [], [], false⟩ }
    | _ => state
  | _ => state

/-- Whether a run takes a node. -/
def fresh (cutoff : Option Nat) (node : Node) : Bool := cutoff.all (· < node.mtime)

/-- One step of `changedPaths`. -/
def advance (tree : Tree) (run : SyncRun) : Option SyncRun :=
  match run.todo with
  | .visit path :: rest =>
    match tree.find path with
    | none => none
    | some node =>
      some { run with
        todo := if node.isDir then .read path :: rest else rest
        paths := if fresh run.cutoff node then run.paths ++ [path] else run.paths
        directories :=
          if fresh run.cutoff node && node.isDir then run.directories ++ [path]
          else run.directories }
  | .read path :: rest => some { run with todo := (children tree path).map .visit ++ rest }
  | [] => none

/-- `touch` -/
def touchMarker (state : State) : State :=
  { state with
    tree := if (state.tree.find markerPath).isSome then
        touchNode state.tree markerPath state.clock
      else addNode state.tree markerPath false state.clock
    run := none }

def next (state : State) (event : Event) : Option State :=
  match event with
  | .tick now => if state.clock ≤ now then some { state with clock := now } else none
  | .create path isDir =>
    if path ≠ [] ∧ state.tree.find path = none ∧
        (state.tree.find path.dropLast).any Node.isDir then
      some { state with tree := addNode state.tree path isDir state.clock }
    else none
  | .start => if state.run.isNone then some state.begin else none
  | .walk =>
    state.run.bind fun run =>
      (advance state.tree run).map fun run => { state with run := some run }
  | .grant =>
    state.run.bind fun run =>
      if run.todo.isEmpty && !run.granted then
        some { state with
          access := run.paths ++ state.access
          defaults := run.directories ++ state.defaults
          run := some { run with granted := true } }
      else none
  | .touch => state.run.bind fun run => if run.granted then some state.touchMarker else none

end State

def Step (state : State) (event : Event) (after : State) : Prop := state.next event = some after

/-- A node has got what it needs. -/
def Granted (state : State) (node : Node) : Prop :=
  node.path ∈ state.access ∧ (node.isDir → node.path ∈ state.defaults)

/-- A repository before the first run: a tree with a configuration and without a
marker. -/
structure Initial (state : State) : Prop where
  root : ∃ node, state.tree.find [] = some node ∧ node.isDir
  parent : ∀ node ∈ state.tree.rows, node.path ≠ [] →
    ∃ parent, state.tree.find node.path.dropLast = some parent ∧ parent.isDir
  config : ∃ node, state.tree.find configPath = some node ∧ node.isDir = false
  unmarked : state.tree.find markerPath = none
  past : ∀ node ∈ state.tree.rows, node.mtime ≤ state.clock
  idle : state.run = none

/-- Whether an item of a walk is still to come by a path. -/
def Item.Covers (path : Path) : Item → Prop
  | .visit visited => visited <+: path
  | .read directory => directory <+: path ∧ directory ≠ path

/-- What the writer has to respect: a new path is no marker and is newer than the
marker, and no run in progress has read its directory already. -/
def Admitted (state : State) : Event → Prop
  | .create path _ =>
    path ≠ markerPath ∧ (∀ marker ∈ state.tree.find markerPath, marker.mtime < state.clock) ∧
    ∀ run ∈ state.run, ∃ item ∈ run.todo, item.Covers path
  | _ => True

instance (path : Path) (item : Item) : Decidable (item.Covers path) := by
  unfold Item.Covers
  split <;> infer_instance

instance (state : State) (event : Event) : Decidable (Admitted state event) := by
  unfold Admitted
  split <;> infer_instance

/-! ## Trees that grow -/

section Trees

variable {tree : Tree} {path : Path} {now : Nat}

/-- A node is still there, and at most modified. -/
structure Grown (old node : Node) : Prop where
  path : old.path = node.path
  isDir : old.isDir = node.isDir
  mtime : old.mtime ≤ node.mtime

theorem Grown.refl (node : Node) : Grown node node := ⟨rfl, rfl, le_rfl⟩

theorem find_touchNode (tree : Tree) (path other : Path) (now : Nat) :
    (touchNode tree path now).find other =
      if other = path then (tree.find path).map fun node => { node with mtime := now }
      else tree.find other := by
  cases hfind : tree.find path with
  | none =>
    by_cases hother : other = path
    · simp [touchNode, hfind, hother]
    · simp [touchNode, hfind, hother]
  | some node =>
    have hpath := Table.key_of_find hfind
    simp [touchNode, hfind, Table.find_save, hpath]

variable {node : Node} {other directory : Path} {isDir : Bool}

/-- Modifying a node leaves every node where it is. -/
theorem grown_of_touchNode (hpast : ∀ node ∈ tree.rows, node.mtime ≤ now)
    (hmem : node ∈ (touchNode tree path now).rows) :
    node.mtime ≤ now ∧ ∃ old ∈ tree.rows, Grown old node := by
  rw [Table.mem_rows_iff, find_touchNode] at hmem
  split at hmem
  · obtain ⟨old, hold, rfl⟩ := Option.map_eq_some_iff.mp hmem
    have hmem := Table.mem_of_find hold
    exact ⟨le_rfl, old, hmem, rfl, rfl, hpast old hmem⟩
  · have hmem := Table.mem_of_find hmem
    exact ⟨hpast node hmem, node, hmem, .refl node⟩

theorem find_isDir_touchNode (hfind : tree.find other = some node) :
    ∃ found, (touchNode tree path now).find other = some found ∧ found.isDir = node.isDir := by
  rw [find_touchNode]
  split_ifs with hother
  · rw [← hother, hfind]
    exact ⟨_, rfl, rfl⟩
  · exact ⟨node, hfind, rfl⟩

/-- A node of a tree with one more node is the new one or was there. -/
theorem grown_of_addNode (hpast : ∀ node ∈ tree.rows, node.mtime ≤ now)
    (hmem : node ∈ (addNode tree path isDir now).rows) :
    node.mtime ≤ now ∧ ((node.path = path ∧ node.isDir = isDir ∧ node.mtime = now) ∨
      ∃ old ∈ tree.rows, Grown old node) := by
  have hsaved : ∀ other ∈ (tree.save ⟨path, isDir, now⟩).rows, other.mtime ≤ now := by
    intro other hother
    rcases Table.mem_save.mp hother with rfl | ⟨hother, -⟩
    · exact le_rfl
    · exact hpast other hother
  obtain ⟨htime, old, hold, hgrown⟩ := grown_of_touchNode hsaved hmem
  refine ⟨htime, ?_⟩
  rcases Table.mem_save.mp hold with rfl | ⟨hold, -⟩
  · exact .inl ⟨hgrown.path.symm, hgrown.isDir.symm, le_antisymm htime hgrown.mtime⟩
  · exact .inr ⟨old, hold, hgrown⟩

theorem find_isDir_addNode (hnew : tree.find path = none) (hfind : tree.find other = some node) :
    ∃ found, (addNode tree path isDir now).find other = some found ∧
      found.isDir = node.isDir := by
  have hother : other ≠ path := by
    rintro rfl
    rw [hnew] at hfind
    cases hfind
  refine find_isDir_touchNode ?_
  rw [Table.find_save_of_ne _ hother]
  exact hfind

/-- The root is a directory, and every other node is in one. -/
structure Rooted (tree : Tree) : Prop where
  root : ∃ node, tree.find [] = some node ∧ node.isDir
  parent : ∀ node ∈ tree.rows, node.path ≠ [] →
    ∃ parent, tree.find node.path.dropLast = some parent ∧ parent.isDir

/-- A tree stays rooted if what is there stays and what is new has a parent. -/
theorem Rooted.grow {after : Tree} (hrooted : Rooted tree)
    (hkept : ∀ other node, tree.find other = some node →
      ∃ found, after.find other = some found ∧ found.isDir = node.isDir)
    (hnodes : ∀ node ∈ after.rows, (∃ old ∈ tree.rows, old.path = node.path) ∨
      ∃ parent, tree.find node.path.dropLast = some parent ∧ parent.isDir) : Rooted after := by
  have hdirectory : ∀ other, (∃ node, tree.find other = some node ∧ node.isDir) →
      ∃ node, after.find other = some node ∧ node.isDir := by
    rintro other ⟨node, hfind, hdir⟩
    obtain ⟨found, hfound, hsame⟩ := hkept other node hfind
    exact ⟨found, hfound, hsame.trans hdir⟩
  refine ⟨hdirectory [] hrooted.root, fun node hmem hpath => hdirectory _ ?_⟩
  rcases hnodes node hmem with ⟨old, hold, hsame⟩ | hparent
  · rw [← hsame] at hpath ⊢
    exact hrooted.parent old hold hpath
  · exact hparent

theorem Rooted.touchNode (hrooted : Rooted tree) (hpast : ∀ node ∈ tree.rows, node.mtime ≤ now) :
    Rooted (touchNode tree path now) := by
  refine hrooted.grow (fun other node hfind => find_isDir_touchNode hfind) fun node hmem => ?_
  obtain ⟨-, old, hold, hgrown⟩ := grown_of_touchNode hpast hmem
  exact .inl ⟨old, hold, hgrown.path⟩

theorem Rooted.addNode (hrooted : Rooted tree) (hpast : ∀ node ∈ tree.rows, node.mtime ≤ now)
    (hnew : tree.find path = none)
    (hparent : ∃ parent, tree.find path.dropLast = some parent ∧ parent.isDir) :
    Rooted (addNode tree path isDir now) := by
  refine hrooted.grow (fun other node hfind => find_isDir_addNode hnew hfind) fun node hmem => ?_
  rcases (grown_of_addNode hpast hmem).2 with ⟨hpath, -, -⟩ | ⟨old, hold, hgrown⟩
  · rw [hpath]
    exact .inr hparent
  · exact .inl ⟨old, hold, hgrown.path⟩

/-- Every ancestor of a node is there, and is a directory. -/
theorem Rooted.ancestor (hrooted : Rooted tree) {below : Path}
    (hfind : tree.find (directory ++ below) = some node) (hbelow : below ≠ []) :
    ∃ found, tree.find directory = some found ∧ found.isDir := by
  induction below using List.reverseRecOn generalizing node with
  | nil => exact absurd rfl hbelow
  | append_singleton below name ih =>
    have hpath : node.path = directory ++ (below ++ [name]) := Table.key_of_find hfind
    have hne : node.path ≠ [] := by simp [hpath]
    obtain ⟨parent, hparent, hdir⟩ := hrooted.parent node (Table.mem_of_find hfind) hne
    rw [hpath, ← List.append_assoc, List.dropLast_concat] at hparent
    by_cases hempty : below = []
    · rw [hempty, List.append_nil] at hparent
      exact ⟨parent, hparent, hdir⟩
    · exact ih hparent hempty

theorem mem_children {name : String} (hfind : tree.find (directory ++ [name]) = some node) :
    directory ++ [name] ∈ children tree directory := by
  have hpath : node.path = directory ++ [name] := Table.key_of_find hfind
  refine List.mem_map.mpr ⟨name, ?_, rfl⟩
  rw [List.mem_insertionSort, List.mem_filterMap]
  refine ⟨node, Table.mem_of_find hfind, ?_⟩
  rw [hpath, List.dropLast_concat, if_pos rfl, List.getLast?_concat]

/-- A directory that is read lists the way to every node below it. -/
theorem Rooted.exists_child (hrooted : Rooted tree) (hmem : node ∈ tree.rows)
    (hbelow : directory <+: node.path) (hne : directory ≠ node.path) :
    ∃ child ∈ children tree directory, child <+: node.path := by
  obtain ⟨below, hpath⟩ := hbelow
  cases below with
  | nil => exact absurd (by rw [← hpath, List.append_nil]) hne
  | cons name below =>
    have hfind : tree.find (directory ++ [name] ++ below) = some node := by
      rw [List.append_assoc, List.singleton_append, hpath]
      exact Table.mem_rows_iff.mp hmem
    have hchild : ∃ found, tree.find (directory ++ [name]) = some found := by
      by_cases hlast : below = []
      · rw [hlast, List.append_nil] at hfind
        exact ⟨node, hfind⟩
      · obtain ⟨found, hfound, -⟩ := hrooted.ancestor hfind hlast
        exact ⟨found, hfound⟩
    obtain ⟨found, hfound⟩ := hchild
    refine ⟨directory ++ [name], mem_children hfound, below, ?_⟩
    rw [List.append_assoc, List.singleton_append, hpath]

end Trees

/-! ## What a run has seen and has still to see -/

/-- A node that the run in progress is going to grant. -/
def Collected (run : SyncRun) (node : Node) : Prop :=
  node.path ∈ run.paths ∧ (node.isDir → node.path ∈ run.directories)

/-- A node that the next run takes. -/
def Newer (state : State) (node : Node) : Prop :=
  ∀ marker, state.tree.find markerPath = some marker → marker.mtime < node.mtime

/-- A node that a run has taken, or takes once it comes by. -/
def Taken (run : SyncRun) (node : Node) : Prop :=
  State.fresh run.cutoff node ∧ (Collected run node ∨ ∃ item ∈ run.todo, item.Covers node.path)

/-- What holds as long as the writer respects the runs. -/
structure Law (state : State) : Prop where
  rooted : Rooted state.tree
  past : ∀ node ∈ state.tree.rows, node.mtime ≤ state.clock
  marker : ∀ node ∈ state.tree.rows, node.path = markerPath → node.isDir = false
  cutoff : ∀ run time, state.run = some run → run.cutoff = some time →
    ∃ marker, state.tree.find markerPath = some marker ∧ marker.mtime = time
  idle : state.run = none → ∀ node ∈ state.tree.rows, node.path ≠ markerPath →
    Granted state node ∨ Newer state node
  walking : ∀ run, state.run = some run → run.granted = false →
    ∀ node ∈ state.tree.rows, node.path ≠ markerPath → Granted state node ∨ Taken run node
  done : ∀ run, state.run = some run → run.granted → run.todo = [] ∧
    ∀ node ∈ state.tree.rows, node.path ≠ markerPath → Granted state node

section Laws

variable {state after : State} {run : SyncRun} {node : Node}

theorem law_of_initial (hinitial : Initial state) : Law state where
  rooted := ⟨hinitial.root, hinitial.parent⟩
  past := hinitial.past
  marker := fun node hmem hpath => by
    have hfind := Table.mem_rows_iff.mp hmem
    rw [hpath, hinitial.unmarked] at hfind
    cases hfind
  cutoff := fun run time hrun => by rw [hinitial.idle] at hrun; cases hrun
  idle := fun _ node hmem hpath => .inr fun marker hmarker => by
    rw [hinitial.unmarked] at hmarker
    cases hmarker
  walking := fun run hrun => by rw [hinitial.idle] at hrun; cases hrun
  done := fun run hrun => by rw [hinitial.idle] at hrun; cases hrun

variable {old : Node} {now : Nat} {path : Path} {isDir : Bool}

theorem Granted.grow (hgranted : Granted state old) (hgrown : Grown old node)
    (haccess : ∀ path ∈ state.access, path ∈ after.access)
    (hdefaults : ∀ path ∈ state.defaults, path ∈ after.defaults) : Granted after node := by
  rw [Granted, ← hgrown.path, ← hgrown.isDir]
  exact ⟨haccess _ hgranted.1, fun hdir => hdefaults _ (hgranted.2 hdir)⟩

theorem fresh_grow {cutoff : Option Nat} (hfresh : State.fresh cutoff old)
    (hgrown : Grown old node) : State.fresh cutoff node := by
  cases cutoff with
  | none => rfl
  | some time =>
    have hold : time < old.mtime := by simpa [State.fresh] using hfresh
    simpa [State.fresh] using hold.trans_le hgrown.mtime

theorem Taken.grow (htaken : Taken run old) (hgrown : Grown old node) :
    Taken run node := by
  refine ⟨fresh_grow htaken.1 hgrown, ?_⟩
  rw [Collected, ← hgrown.path, ← hgrown.isDir]
  exact htaken.2

/-! ### The writer -/

theorem Law.tick (hlaw : Law state) (hnow : state.clock ≤ now) :
    Law { state with clock := now } where
  rooted := hlaw.rooted
  past := fun node hmem => (hlaw.past node hmem).trans hnow
  marker := hlaw.marker
  cutoff := hlaw.cutoff
  idle := hlaw.idle
  walking := hlaw.walking
  done := hlaw.done

/-- The marker stays what it is when another path is created. -/
theorem find_marker_addNode {tree : Tree} (hpath : path ≠ markerPath)
    (hmarker : path.dropLast ≠ markerPath) :
    (addNode tree path isDir now).find markerPath = tree.find markerPath := by
  rw [addNode, find_touchNode, if_neg (Ne.symm hmarker), Table.find_save_of_ne _ (Ne.symm hpath)]

theorem Law.create (hlaw : Law state) (hadmitted : Admitted state (.create path isDir))
    (hnew : state.tree.find path = none)
    (hparent : ∃ parent, state.tree.find path.dropLast = some parent ∧ parent.isDir) :
    Law { state with tree := addNode state.tree path isDir state.clock } := by
  obtain ⟨hname, hnewer, hcovered⟩ := hadmitted
  have hmarker : path.dropLast ≠ markerPath := by
    obtain ⟨parent, hfind, hdir⟩ := hparent
    intro hpath
    have hfile := hlaw.marker parent (Table.mem_of_find hfind)
      ((Table.key_of_find hfind).trans hpath)
    rw [hdir] at hfile
    cases hfile
  have hkept : (addNode state.tree path isDir state.clock).find markerPath =
      state.tree.find markerPath := find_marker_addNode hname hmarker
  have hnodes : ∀ node ∈ (addNode state.tree path isDir state.clock).rows,
      (node.path = path ∧ node.mtime = state.clock) ∨
        ∃ old ∈ state.tree.rows, Grown old node := by
    intro node hmem
    rcases (grown_of_addNode hlaw.past hmem).2 with ⟨hpath, -, htime⟩ | hold
    · exact .inl ⟨hpath, htime⟩
    · exact .inr hold
  refine ⟨hlaw.rooted.addNode hlaw.past hnew hparent,
    fun node hmem => (grown_of_addNode hlaw.past hmem).1, fun node hmem hpath => ?_,
    fun run time hrun hcut => ?_, fun hidle node hmem hother => ?_,
    fun run hrun hopen node hmem hother => ?_, fun run hrun hgranted => ?_⟩
  · rcases hnodes node hmem with ⟨hself, -⟩ | ⟨old, hold, hgrown⟩
    · exact absurd (hself.symm.trans hpath) hname
    · rw [← hgrown.isDir]
      exact hlaw.marker old hold (hgrown.path.trans hpath)
  · obtain ⟨marker, hfind, htime⟩ := hlaw.cutoff run time hrun hcut
    exact ⟨marker, hkept.trans hfind, htime⟩
  · rcases hnodes node hmem with ⟨-, htime⟩ | ⟨old, hold, hgrown⟩
    · refine .inr fun marker hfind => ?_
      rw [htime]
      exact hnewer marker (hkept.symm.trans hfind)
    · rw [← hgrown.path] at hother
      refine (hlaw.idle hidle old hold hother).imp (fun hgranted => ?_) fun hnewer => ?_
      · exact hgranted.grow hgrown (fun _ => id) fun _ => id
      · exact fun marker hfind =>
          (hnewer marker (hkept.symm.trans hfind)).trans_le hgrown.mtime
  · rcases hnodes node hmem with ⟨hpath, htime⟩ | ⟨old, hold, hgrown⟩
    · -- The walk has still to come by, and the node is newer than the marker.
      refine .inr ⟨?_, .inr ?_⟩
      · cases hcut : run.cutoff with
        | none => rfl
        | some time =>
          obtain ⟨marker, hfind, rfl⟩ := hlaw.cutoff run time hrun hcut
          rw [State.fresh, htime]
          simpa using hnewer marker hfind
      · rw [hpath]
        exact hcovered run hrun
    · rw [← hgrown.path] at hother
      refine (hlaw.walking run hrun hopen old hold hother).imp (fun hgranted => ?_)
        fun htaken => htaken.grow hgrown
      exact hgranted.grow hgrown (fun _ => id) fun _ => id
  · -- A walk that is over covers nothing.
    obtain ⟨item, hitem, -⟩ := hcovered run hrun
    rw [(hlaw.done run hrun hgranted).1] at hitem
    cases hitem

/-! ### The run -/

theorem Law.start (hlaw : Law state) (hidle : state.run = none) : Law state.begin := by
  have hmore : ∀ node ∈ state.tree.rows, node.path ≠ markerPath →
      Granted { state with access := [] :: state.access, defaults := [] :: state.defaults } node ∨
        Newer state node := by
    intro node hmem hpath
    refine (hlaw.idle hidle node hmem hpath).imp_left fun hgranted => ?_
    exact hgranted.grow (.refl node) (fun _ => List.mem_cons_of_mem _)
      fun _ => List.mem_cons_of_mem _
  rw [State.begin]
  split
  · dsimp only
    split
    · rename_i path mtime hconfig
      refine ⟨hlaw.rooted, hlaw.past, hlaw.marker, fun run time hrun hcut => ?_,
        fun hnone => (by cases hnone), fun run hrun _ node hmem hpath => ?_,
        fun run hrun hgranted => ?_⟩
      · cases hrun
        rw [State.cutoff] at hcut
        split at hcut
        · cases hcut
        rename_i marker hmarker
        split_ifs at hcut
        exact ⟨marker, hmarker, Option.some.inj hcut⟩
      · cases hrun
        refine (hmore node hmem hpath).imp_right fun hnewer => ⟨?_, .inr ⟨.visit [], ?_, ?_⟩⟩
        · rw [State.cutoff]
          cases hmarker : state.tree.find markerPath with
          | none => rfl
          | some marker =>
            dsimp only
            split
            · rfl
            · simpa [State.fresh] using hnewer marker hmarker
        · exact List.mem_cons_self
        · exact List.nil_prefix
      · cases hrun
        cases hgranted
    · refine ⟨hlaw.rooted, hlaw.past, hlaw.marker, hlaw.cutoff, fun _ => hmore,
        fun run hrun => ?_, fun run hrun => ?_⟩
      · rw [hidle] at hrun
        cases hrun
      · rw [hidle] at hrun
        cases hrun
  · exact hlaw

/-- A node that a walk comes by is taken, and what is below it is still to come. -/
theorem Taken.advance {next : SyncRun} (hrooted : Rooted state.tree)
    (hadvance : State.advance state.tree run = some next) (hmem : node ∈ state.tree.rows)
    (htaken : Taken run node) : Taken next node := by
  obtain ⟨hfresh, hseen⟩ := htaken
  rw [State.advance] at hadvance
  split at hadvance
  · rename_i visited rest htodo
    split at hadvance
    · cases hadvance
    rename_i found hfound
    cases hadvance
    refine ⟨hfresh, ?_⟩
    rcases hseen with ⟨hpaths, hdirectories⟩ | ⟨item, hitem, hcovers⟩
    · refine .inl ⟨?_, fun hdir => ?_⟩
      · dsimp only
        split
        · exact List.mem_append_left _ hpaths
        · exact hpaths
      · dsimp only
        split
        · exact List.mem_append_left _ (hdirectories hdir)
        · exact hdirectories hdir
    · rw [htodo] at hitem
      rcases List.mem_cons.mp hitem with rfl | hrest
      · have hcovers : visited <+: node.path := hcovers
        by_cases hself : visited = node.path
        · -- The path itself is visited.
          have hsame : found = node := by
            rw [hself] at hfound
            exact Option.some.inj (hfound.symm.trans (Table.mem_rows_iff.mp hmem))
          rw [hsame]
          refine .inl ⟨?_, fun hdir => ?_⟩
          · simp [hfresh, hself]
          · simp [hfresh, hdir, hself]
        · obtain ⟨below, hbelow⟩ := hcovers
          have hne : below ≠ [] := by
            rintro rfl
            exact hself (by rw [← hbelow, List.append_nil])
          have hfind : state.tree.find (visited ++ below) = some node := by
            rw [hbelow]
            exact Table.mem_rows_iff.mp hmem
          obtain ⟨directory, hdirectory, hdir⟩ := hrooted.ancestor hfind hne
          cases hfound.symm.trans hdirectory
          refine .inr ⟨.read visited, ?_, ⟨below, hbelow⟩, hself⟩
          simp [hdir]
      · refine .inr ⟨item, ?_, hcovers⟩
        dsimp only
        split
        · exact List.mem_cons_of_mem _ hrest
        · exact hrest
  · rename_i directory rest htodo
    cases hadvance
    refine ⟨hfresh, ?_⟩
    rcases hseen with hcollected | ⟨item, hitem, hcovers⟩
    · exact .inl hcollected
    · rw [htodo] at hitem
      rcases List.mem_cons.mp hitem with rfl | hrest
      · obtain ⟨child, hchild, hbelow⟩ := hrooted.exists_child hmem hcovers.1 hcovers.2
        exact .inr ⟨.visit child,
          List.mem_append_left _ (List.mem_map.mpr ⟨child, hchild, rfl⟩), hbelow⟩
      · exact .inr ⟨item, List.mem_append_right _ hrest, hcovers⟩
  · cases hadvance

theorem advance_kept {next : SyncRun} (hadvance : State.advance state.tree run = some next) :
    next.cutoff = run.cutoff ∧ next.granted = run.granted ∧ run.todo ≠ [] := by
  rw [State.advance] at hadvance
  split at hadvance
  · rename_i htodo
    split at hadvance
    · cases hadvance
    cases hadvance
    exact ⟨rfl, rfl, by simp [htodo]⟩
  · rename_i htodo
    cases hadvance
    exact ⟨rfl, rfl, by simp [htodo]⟩
  · cases hadvance

theorem Law.walk (hlaw : Law state) {next : SyncRun} (hrun : state.run = some run)
    (hadvance : State.advance state.tree run = some next) :
    Law { state with run := some next } := by
  obtain ⟨hcutoff, hgranted, htodo⟩ := advance_kept hadvance
  have hopen : run.granted = false := by
    cases hover : run.granted with
    | false => rfl
    | true => exact absurd (hlaw.done run hrun hover).1 htodo
  refine ⟨hlaw.rooted, hlaw.past, hlaw.marker, fun other time hother hcut => ?_,
    fun hnone => (by cases hnone), fun other hother _ node hmem hpath => ?_,
    fun other hother hover => ?_⟩
  · cases hother
    rw [hcutoff] at hcut
    exact hlaw.cutoff run time hrun hcut
  · cases hother
    exact (hlaw.walking run hrun hopen node hmem hpath).imp_right fun htaken =>
      htaken.advance hlaw.rooted hadvance hmem
  · cases hother
    rw [hgranted, hopen] at hover
    cases hover

theorem Law.grant (hlaw : Law state) (hrun : state.run = some run) (htodo : run.todo = [])
    (hopen : run.granted = false) :
    Law { state with
      access := run.paths ++ state.access
      defaults := run.directories ++ state.defaults
      run := some { run with granted := true } } := by
  refine ⟨hlaw.rooted, hlaw.past, hlaw.marker, fun other time hother hcut => ?_,
    fun hnone => (by cases hnone), fun other hother hfalse => ?_, fun other hother _ => ?_⟩
  · cases hother
    exact hlaw.cutoff run time hrun hcut
  · cases hother
    cases hfalse
  · cases hother
    refine ⟨htodo, fun node hmem hpath => ?_⟩
    rcases hlaw.walking run hrun hopen node hmem hpath with hgranted | ⟨-, hseen⟩
    · exact hgranted.grow (.refl node) (fun _ => List.mem_append_right _)
        fun _ => List.mem_append_right _
    · rcases hseen with ⟨hpaths, hdirectories⟩ | ⟨item, hitem, -⟩
      · exact ⟨List.mem_append_left _ hpaths, fun hdir =>
          List.mem_append_left _ (hdirectories hdir)⟩
      · rw [htodo] at hitem
        cases hitem

theorem Law.touch (hlaw : Law state) (hrun : state.run = some run) (hgranted : run.granted) :
    Law state.touchMarker := by
  have hall := (hlaw.done run hrun hgranted).2
  -- Both ways to touch the marker leave every other node granted.
  have hlaws : ∀ tree : Tree, Rooted tree → (∀ node ∈ tree.rows, node.mtime ≤ state.clock ∧
      ((node.path = markerPath ∧ node.isDir = false) ∨
        ∃ old ∈ state.tree.rows, Grown old node)) →
      Law { state with tree := tree, run := none } := by
    intro tree hrooted hnodes
    refine ⟨hrooted, fun node hmem => (hnodes node hmem).1, fun node hmem hpath => ?_,
      fun run time hnone => (by cases hnone), fun _ node hmem hpath => .inl ?_,
      fun run hnone => (by cases hnone), fun run hnone => (by cases hnone)⟩
    · rcases (hnodes node hmem).2 with ⟨-, hfile⟩ | ⟨old, hold, hgrown⟩
      · exact hfile
      · rw [← hgrown.isDir]
        exact hlaw.marker old hold (hgrown.path.trans hpath)
    · obtain ⟨old, hold, hgrown⟩ := (hnodes node hmem).2.resolve_left fun hself => hpath hself.1
      rw [← hgrown.path] at hpath
      exact (hall old hold hpath).grow hgrown (fun _ => id) fun _ => id
  rw [State.touchMarker]
  split_ifs with hmissing
  · refine hlaws _ (hlaw.rooted.touchNode hlaw.past) fun node hmem => ?_
    obtain ⟨htime, hold⟩ := grown_of_touchNode hlaw.past hmem
    exact ⟨htime, .inr hold⟩
  · have hnew : state.tree.find markerPath = none := by simpa using hmissing
    refine hlaws _ (hlaw.rooted.addNode hlaw.past hnew hlaw.rooted.root) fun node hmem => ?_
    obtain ⟨htime, hnode⟩ := grown_of_addNode hlaw.past hmem
    exact ⟨htime, hnode.imp_left fun hself => ⟨hself.1, hself.2.1⟩⟩

/-- Whatever happens, as long as the writer respects the runs. -/
theorem Law.next (hlaw : Law state) {event : Event} (hadmitted : Admitted state event)
    (hstep : Step state event after) : Law after := by
  cases event with
  | tick now =>
    obtain ⟨hnow, ⟨⟩⟩ := Option.ite_none_right_eq_some.mp hstep
    exact hlaw.tick hnow
  | create path isDir =>
    obtain ⟨hallowed, ⟨⟩⟩ := Option.ite_none_right_eq_some.mp hstep
    refine hlaw.create hadmitted hallowed.2.1 ?_
    cases hfind : state.tree.find path.dropLast with
    | none => rw [hfind] at hallowed; cases hallowed.2.2
    | some parent =>
      rw [hfind] at hallowed
      exact ⟨parent, rfl, hallowed.2.2⟩
  | start =>
    obtain ⟨hidle, ⟨⟩⟩ := Option.ite_none_right_eq_some.mp hstep
    exact hlaw.start (Option.isNone_iff_eq_none.mp hidle)
  | walk =>
    obtain ⟨run, hrun, hwalk⟩ := Option.bind_eq_some_iff.mp hstep
    obtain ⟨next, hadvance, rfl⟩ := Option.map_eq_some_iff.mp hwalk
    exact hlaw.walk hrun hadvance
  | grant =>
    obtain ⟨run, hrun, hgrant⟩ := Option.bind_eq_some_iff.mp hstep
    obtain ⟨hready, ⟨⟩⟩ := Option.ite_none_right_eq_some.mp hgrant
    rw [Bool.and_eq_true, Bool.not_eq_true', List.isEmpty_iff] at hready
    exact hlaw.grant hrun hready.1 hready.2
  | touch =>
    obtain ⟨run, hrun, htouch⟩ := Option.bind_eq_some_iff.mp hstep
    obtain ⟨hgranted, ⟨⟩⟩ := Option.ite_none_right_eq_some.mp htouch
    exact hlaw.touch hrun hgranted

end Laws

/-! ## Coverage -/

/-- If the writer respects the runs, a run that ends has granted, or found granted,
every path that there is, apart from the marker. -/
theorem sync_covers_of_admitted {init state after : State} {past : List (State × Event)}
    (hinitial : Initial init) (hrun : Reaches Step init past state)
    (hadmitted : ∀ entry ∈ past, Admitted entry.1 entry.2) (hend : Step state .touch after) :
    ∀ node ∈ state.tree.rows, node.path ≠ markerPath → Granted after node := by
  have hlaw : Law state := hrun.invariant_of_admitted Admitted (fun _ state => Law state)
    hadmitted (law_of_initial hinitial) fun _ hlaw hevent hstep => hlaw.next hevent hstep
  obtain ⟨run, hrun, htouch⟩ := Option.bind_eq_some_iff.mp hend
  split at htouch
  · rename_i hgranted
    cases htouch
    exact (hlaw.done run hrun hgranted).2
  · cases htouch

/-! ### A pack that appears behind the walk -/

/-- A repository with a configuration and a directory. -/
def smallRepository : State where
  tree := ⟨[⟨[], true, 0⟩, ⟨configPath, false, 0⟩, ⟨["data"], true, 0⟩], by decide⟩
  clock := 1
  access := []
  defaults := []
  run := none

theorem initial_smallRepository : Initial smallRepository where
  root := ⟨_, rfl, rfl⟩
  parent := by decide
  config := ⟨_, rfl, rfl⟩
  unmarked := by decide
  past := by decide
  idle := rfl

/-- The writer adds a pack before the first run. -/
def earlyPack : List Event :=
  [.create ["data", "pack"] false, .start, .walk, .walk, .walk, .walk, .walk, .walk, .grant]

/-- A pack that is there in time is granted. -/
theorem early_pack_granted : ∃ past state after, Reaches Step smallRepository past state ∧
    (∀ entry ∈ past, Admitted entry.1 entry.2) ∧ Step state .touch after ∧
    ⟨["data", "pack"], false, 1⟩ ∈ state.tree.rows ∧
    ∀ node ∈ state.tree.rows, node.path ≠ markerPath → Granted after node := by
  obtain ⟨past, state, hrun, hadmitted, hpack, hend⟩ : ∃ past state,
      Reaches Step smallRepository past state ∧ (∀ entry ∈ past, Admitted entry.1 entry.2) ∧
      (⟨["data", "pack"], false, 1⟩ : Node) ∈ state.tree.rows ∧
      (state.next .touch).isSome :=
    Reaches.of_execute earlyPack (by decide +kernel)
  obtain ⟨after, hend⟩ := Option.isSome_iff_exists.mp hend
  exact ⟨past, state, after, hrun, hadmitted, hend, hpack,
    sync_covers_of_admitted initial_smallRepository hrun hadmitted hend⟩

/-- The state that the latest run started in. -/
def lastStart (past : List (State × Event)) : Option State :=
  (past.find? fun entry => entry.2 = .start).map Prod.fst

/-- The writer adds a pack once the walk has read the directory, and another run
follows. -/
def latePack : List Event :=
  [.start, .walk, .walk, .walk, .walk, .walk, .tick 2, .create ["data", "pack"] false, .grant,
    .tick 3, .touch, .tick 4, .start, .walk, .walk, .walk, .walk, .walk, .walk, .walk, .grant]

/-- The pack is there when the second run starts and when it ends, and is granted
by neither run. -/
theorem late_pack_never_granted : ∃ past started state after,
    Reaches Step smallRepository past state ∧ lastStart past = some started ∧
    (⟨["data", "pack"], false, 2⟩ : Node) ∈ started.tree.rows ∧
    (⟨["data", "pack"], false, 2⟩ : Node) ∈ state.tree.rows ∧ Step state .touch after ∧
    ¬ Granted after ⟨["data", "pack"], false, 2⟩ := by
  obtain ⟨past, state, hrun, hstarted, hpack, hend⟩ : ∃ past state,
      Reaches Step smallRepository past state ∧
      ((lastStart past).any fun started =>
        (⟨["data", "pack"], false, 2⟩ : Node) ∈ started.tree.rows) ∧
      (⟨["data", "pack"], false, 2⟩ : Node) ∈ state.tree.rows ∧
      (state.next .touch).any fun after => ["data", "pack"] ∉ after.access :=
    Reaches.of_execute latePack (by decide +kernel)
  obtain ⟨started, hlast, hpresent⟩ := (Option.any_eq_true _ _).mp hstarted
  obtain ⟨after, hend, hmissing⟩ := (Option.any_eq_true _ _).mp hend
  exact ⟨past, started, state, after, hrun, hlast, of_decide_eq_true hpresent, hpack, hend,
    fun hgranted => of_decide_eq_true hmissing hgranted.1⟩

end NixConfig.Backups
