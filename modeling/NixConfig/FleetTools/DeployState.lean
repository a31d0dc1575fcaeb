/-
# Deployment locks and roots

Each host that is deployed has a directory with a lock file and, while a
deployment runs, links that keep the garbage collector away from what it
deploys. A process locks its hosts one after the other, then looks at every
other host: if it can take that lock too, nobody deploys there, and the links
are left over from a process that was killed. Whoever takes a lock clears the
links that it finds, and clears its own before it unlocks.

The kernel locks files, not names: a lock belongs to an inode, and it excludes
others from the host only as long as everybody opens the same one. That a
process may clear links because of what another process does not hold is a
matter of the lock file never being replaced.

Processes are interleaved at the level of system calls. Any of them may fail,
and any process may be killed at any point, which frees its locks and nothing
else.
-/

import Mathlib.Data.List.Sort
import Mathlib.Data.String.Basic
import NixConfig.Data.Table
import NixConfig.Semantics.Run

namespace NixConfig.FleetTools

open Data Semantics

/-! ## Files -/

abbrev Host := String

abbrev Pid := Nat

/-- What a name in a directory stands for. -/
inductive Kind
  | file (inode : Nat)
  | symlink
  deriving DecidableEq

/-- An entry of the directory of a host. -/
structure DirEntry where
  host : Host
  name : String
  kind : Kind

def DirEntry.path (entry : DirEntry) : Host × String := (entry.host, entry.name)

/-- `name == "source" || name.starts_with("helper-")` -/
def isRoot (name : String) : Bool :=
  name == "source" || "helper-".toList.isPrefixOf name.toList

def lockName : String := "lock"

/-! ## Processes -/

/-- A `HostLock`, or a lock file that is open and not locked yet. -/
structure Handle where
  host : Host
  inode : Nat
  deriving DecidableEq

/-- Roots are cleared once their lock is taken, and before it is released. -/
inductive Purpose
  | acquire
  | release
  deriving DecidableEq

/-- A system call, or the wait for the deployment to end. A host is required if it
was selected. -/
inductive Op
  /-- `create_dir_all` -/
  | ensure (host : Host) (required : Bool)
  /-- `FileLock::open` -/
  | openLock (host : Host) (required : Bool)
  | tryLock (handle : Handle) (required : Bool)
  /-- `read_dir` of `clear_roots` -/
  | scan (handle : Handle) (purpose : Purpose)
  /-- `remove_file` of `clear_roots` -/
  | remove (handle : Handle) (name : String) (purpose : Purpose)
  | unlock (handle : Handle)
  /-- `read_dir` of `clear_abandoned_roots` -/
  | listHosts
  /-- `lock` has returned. -/
  | work
  deriving DecidableEq

/-- A process: the hosts it was given, the locks it holds in the order it took
them, and what is left to do. -/
structure Process where
  selected : List Host
  held : List Handle
  todo : List Op
  deriving DecidableEq

/-- The `Drop` of `HostLock` and of its `FileLock`, for each of some locks. -/
def releaseOps (handles : List Handle) : List Op :=
  handles.flatMap fun handle => [.scan handle .release, .unlock handle]

/-- A call of `lock`, and the deployment. -/
def lockOps (hosts : List Host) : List Op :=
  (hosts.dedup.insertionSort (· ≤ ·)).map (fun host => .ensure host true) ++ [.listHosts, .work]

/-- What follows a lock that was taken. One that is not required is dropped at
once. -/
def afterLock (handle : Handle) (required : Bool) (rest : List Op) : List Op :=
  .scan handle .acquire ::
    if required then rest else .scan handle .release :: .unlock handle :: rest

def Op.isRemoveOf (handle : Handle) : Op → Bool
  | .remove other _ _ => other = handle
  | _ => false

/-- What is left to do once the next call fails. While roots are cleared in a
`Drop`, the error is printed and the lock released. Otherwise it is returned, and
every lock is dropped, the one at hand first. -/
def Process.failed (process : Process) : List Op :=
  match process.todo with
  | .scan _ .release :: rest => rest
  | .remove handle _ .release :: rest => rest.dropWhile (Op.isRemoveOf handle)
  | .scan handle .acquire :: _ => releaseOps (handle :: process.held.erase handle)
  | .remove handle _ .acquire :: _ => releaseOps (handle :: process.held.erase handle)
  | .unlock handle :: rest => .unlock handle :: rest
  | _ => releaseOps process.held

/-! ## The machine -/

structure Machine where
  /-- The hosts that have a directory. -/
  hosts : List Host
  entries : Table DirEntry.path
  nextInode : Nat
  /-- The owner of the lock on a file. -/
  locks : Nat → Option Pid
  processes : Pid → Option Process

namespace Machine

def empty : Machine := ⟨[], .empty, 0, fun _ => none, fun _ => none⟩

def entry (machine : Machine) (host : Host) (name : String) : Option Kind :=
  (machine.entries.find (host, name)).map DirEntry.kind

/-- The roots of a host, as `clear_roots` looks for them. -/
def roots (machine : Machine) (host : Host) : List String :=
  (machine.entries.rows.filter fun row =>
    row.host = host ∧ isRoot row.name ∧ row.kind = .symlink).map DirEntry.name

/-- A process goes on. -/
def proceed (machine : Machine) (pid : Pid) (process : Process) : Machine :=
  { machine with processes := Function.update machine.processes pid (some process) }

def saveEntry (machine : Machine) (row : DirEntry) : Machine :=
  { machine with entries := machine.entries.save row }

/-- `create_dir_all` -/
def ensureHost (machine : Machine) (host : Host) : Machine :=
  { machine with hosts := if host ∈ machine.hosts then machine.hosts else host :: machine.hosts }

/-- A new file. -/
def createLock (machine : Machine) (host : Host) : Machine :=
  { machine.saveEntry ⟨host, lockName, .file machine.nextInode⟩ with
    nextInode := machine.nextInode + 1 }

def removeEntry (machine : Machine) (host : Host) (name : String) : Machine :=
  { machine with entries := machine.entries.erase (host, name) }

def setLock (machine : Machine) (inode : Nat) (owner : Option Pid) : Machine :=
  { machine with locks := Function.update machine.locks inode owner }

/-- The next call of a process succeeds. A directory that is listed gives the names
`listing`, in any order; of the state directory, these may be any hosts that
exist. -/
def perform (machine : Machine) (pid : Pid) (process : Process) (listing : List String) :
    Option Machine :=
  match process.todo with
  | .ensure host required :: rest =>
    some ((machine.ensureHost host).proceed pid
      { process with todo := .openLock host required :: rest })
  | .openLock host required :: rest =>
    match machine.entry host lockName with
    | some (.file inode) =>
      some (machine.proceed pid { process with todo := .tryLock ⟨host, inode⟩ required :: rest })
    | none =>
      some ((machine.createLock host).proceed pid
        { process with todo := .tryLock ⟨host, machine.nextInode⟩ required :: rest })
    | some .symlink => none
  | .tryLock handle required :: rest =>
    match machine.locks handle.inode with
    | none =>
      some ((machine.setLock handle.inode (some pid)).proceed pid
        { process with
          held := process.held ++ [handle]
          todo := afterLock handle required rest })
    | some _ =>
      -- `WouldBlock`: another deployment is running, or the host keeps its roots.
      some (machine.proceed pid
        { process with todo := if required then releaseOps process.held else rest })
  | .scan handle purpose :: rest =>
    if listing.Perm (machine.roots handle.host) then
      some (machine.proceed pid
        { process with todo := listing.map (fun name => .remove handle name purpose) ++ rest })
    else none
  | .remove handle name _ :: rest =>
    if (machine.entry handle.host name).isSome then
      some ((machine.removeEntry handle.host name).proceed pid { process with todo := rest })
    else none
  | .unlock handle :: rest =>
    some ((machine.setLock handle.inode none).proceed pid
      { process with held := process.held.erase handle, todo := rest })
  | .listHosts :: rest =>
    if ∀ host ∈ listing, host ∈ machine.hosts then
      some (machine.proceed pid
        { process with
          todo := (listing.filter (· ∉ process.selected)).map (fun host => .ensure host false) ++
            rest })
    else none
  | .work :: _ => none
  | [] => none

end Machine

inductive Event
  /-- A deployment of some hosts starts. -/
  | start (pid : Pid) (hosts : List Host)
  | perform (pid : Pid) (listing : List String)
  /-- The next call returns an error. -/
  | fail (pid : Pid)
  /-- A running deployment creates a root of one of its hosts. -/
  | create (pid : Pid) (host : Host) (name : String)
  /-- The deployment ends, and the locks are dropped. -/
  | drop (pid : Pid)
  | kill (pid : Pid)

/-- What an event makes of the machine, if it can happen. -/
def Machine.next (machine : Machine) (event : Event) : Option Machine :=
  match event with
  | .start pid hosts =>
    match machine.processes pid with
    | none => some (machine.proceed pid ⟨hosts, [], lockOps hosts⟩)
    | some _ => none
  | .perform pid listing =>
    (machine.processes pid).bind fun process => machine.perform pid process listing
  | .fail pid =>
    (machine.processes pid).bind fun process =>
      some (machine.proceed pid { process with todo := process.failed })
  | .create pid host name =>
    (machine.processes pid).bind fun process =>
      if process.todo.head? = some .work ∧ host ∈ process.selected ∧ isRoot name then
        some (machine.saveEntry ⟨host, name, .symlink⟩)
      else none
  | .drop pid =>
    (machine.processes pid).bind fun process =>
      if process.todo.head? = some .work then
        some (machine.proceed pid { process with todo := releaseOps process.held })
      else none
  | .kill pid =>
    some { machine with
      locks := fun inode => if machine.locks inode = some pid then none else machine.locks inode
      processes := Function.update machine.processes pid none }

def Step (machine : Machine) (event : Event) (after : Machine) : Prop :=
  machine.next event = some after

/-- A live process holds the lock of a host. -/
def Machine.Holds (machine : Machine) (pid : Pid) (host : Host) : Prop :=
  ∃ process handle, machine.processes pid = some process ∧ handle ∈ process.held ∧
    handle.host = host

def Machine.RootLink (machine : Machine) (host : Host) (name : String) : Prop :=
  isRoot name ∧ machine.entry host name = some .symlink

/-- The event is a call of a process that clears a root of a host. -/
def Clears (machine : Machine) (event : Event) (pid : Pid) (host : Host) (name : String)
    (purpose : Purpose) : Prop :=
  ∃ process handle rest listing, event = .perform pid listing ∧
    machine.processes pid = some process ∧ handle.host = host ∧
    process.todo = .remove handle name purpose :: rest

/-! ## What an event can do -/

section Inversion

variable {machine after : Machine} {pid : Pid} {process : Process} {listing : List String}

/-- What a call that succeeds makes of the machine. -/
inductive Machine.Performs (machine : Machine) (pid : Pid) (process : Process)
    (listing : List String) : Machine → Prop
  | ensured {host : Host} {required : Bool} {rest : List Op}
      (todo : process.todo = .ensure host required :: rest) :
      Performs machine pid process listing ((machine.ensureHost host).proceed pid
        { process with todo := .openLock host required :: rest })
  | opened {host : Host} {required : Bool} {rest : List Op} {inode : Nat}
      (todo : process.todo = .openLock host required :: rest)
      (file : machine.entry host lockName = some (.file inode)) :
      Performs machine pid process listing (machine.proceed pid
        { process with todo := .tryLock ⟨host, inode⟩ required :: rest })
  | created {host : Host} {required : Bool} {rest : List Op}
      (todo : process.todo = .openLock host required :: rest)
      (missing : machine.entry host lockName = none) :
      Performs machine pid process listing ((machine.createLock host).proceed pid
        { process with todo := .tryLock ⟨host, machine.nextInode⟩ required :: rest })
  | taken {handle : Handle} {required : Bool} {rest : List Op}
      (todo : process.todo = .tryLock handle required :: rest)
      (free : machine.locks handle.inode = none) :
      Performs machine pid process listing
        ((machine.setLock handle.inode (some pid)).proceed pid
          { process with
            held := process.held ++ [handle]
            todo := afterLock handle required rest })
  | refused {handle : Handle} {required : Bool} {rest : List Op}
      (todo : process.todo = .tryLock handle required :: rest) :
      Performs machine pid process listing (machine.proceed pid
        { process with todo := if required then releaseOps process.held else rest })
  | scanned {handle : Handle} {purpose : Purpose} {rest : List Op}
      (todo : process.todo = .scan handle purpose :: rest)
      (listed : listing.Perm (machine.roots handle.host)) :
      Performs machine pid process listing (machine.proceed pid
        { process with todo := listing.map (fun name => .remove handle name purpose) ++ rest })
  | removed {handle : Handle} {name : String} {purpose : Purpose} {rest : List Op}
      (todo : process.todo = .remove handle name purpose :: rest) :
      Performs machine pid process listing
        ((machine.removeEntry handle.host name).proceed pid { process with todo := rest })
  | unlocked {handle : Handle} {rest : List Op}
      (todo : process.todo = .unlock handle :: rest) :
      Performs machine pid process listing ((machine.setLock handle.inode none).proceed pid
        { process with held := process.held.erase handle, todo := rest })
  | listed {rest : List Op} (todo : process.todo = .listHosts :: rest) :
      Performs machine pid process listing (machine.proceed pid
        { process with
          todo := (listing.filter (· ∉ process.selected)).map (fun host => .ensure host false) ++
            rest })

theorem Machine.performs_of_perform
    (hperform : machine.perform pid process listing = some after) :
    machine.Performs pid process listing after := by
  rw [Machine.perform] at hperform
  split at hperform
  case h_1 htodo => cases hperform; exact .ensured htodo
  case h_2 htodo =>
    split at hperform
    case h_1 hfile => cases hperform; exact .opened htodo hfile
    case h_2 hnone => cases hperform; exact .created htodo hnone
    case h_3 => cases hperform
  case h_3 htodo =>
    split at hperform
    case h_1 hfree => cases hperform; exact .taken htodo hfree
    case h_2 => cases hperform; exact .refused htodo
  case h_4 htodo =>
    split_ifs at hperform with hlisted
    cases hperform
    exact .scanned htodo hlisted
  case h_5 htodo =>
    split_ifs at hperform
    cases hperform
    exact .removed htodo
  case h_6 htodo => cases hperform; exact .unlocked htodo
  case h_7 htodo =>
    split_ifs at hperform
    cases hperform
    exact .listed htodo
  case h_8 => cases hperform
  case h_9 => cases hperform

/-- What an event that can happen makes of the machine. -/
inductive Machine.Moves (machine : Machine) : Event → Machine → Prop
  | start {pid : Pid} {hosts : List Host} (idle : machine.processes pid = none) :
      Moves machine (.start pid hosts) (machine.proceed pid ⟨hosts, [], lockOps hosts⟩)
  | perform {pid : Pid} {listing : List String} {process : Process} {after : Machine}
      (live : machine.processes pid = some process)
      (performs : machine.Performs pid process listing after) :
      Moves machine (.perform pid listing) after
  | fail {pid : Pid} {process : Process} (live : machine.processes pid = some process) :
      Moves machine (.fail pid) (machine.proceed pid { process with todo := process.failed })
  | create {pid : Pid} {host : Host} {name : String} {process : Process}
      (live : machine.processes pid = some process)
      (working : process.todo.head? = some .work) (selected : host ∈ process.selected)
      (root : isRoot name) :
      Moves machine (.create pid host name) (machine.saveEntry ⟨host, name, .symlink⟩)
  | drop {pid : Pid} {process : Process} (live : machine.processes pid = some process) :
      Moves machine (.drop pid)
        (machine.proceed pid { process with todo := releaseOps process.held })
  | kill {pid : Pid} :
      Moves machine (.kill pid) { machine with
        locks := fun inode => if machine.locks inode = some pid then none else machine.locks inode
        processes := Function.update machine.processes pid none }

theorem Step.moves {event : Event} (hstep : Step machine event after) :
    machine.Moves event after := by
  cases event with
  | start pid hosts =>
    rw [Step, Machine.next] at hstep
    split at hstep
    case h_1 hidle => cases hstep; exact .start hidle
    case h_2 => cases hstep
  | perform pid listing =>
    obtain ⟨process, hlive, hperform⟩ := Option.bind_eq_some_iff.mp hstep
    exact .perform hlive (Machine.performs_of_perform hperform)
  | fail pid =>
    obtain ⟨process, hlive, hfail⟩ := Option.bind_eq_some_iff.mp hstep
    cases hfail
    exact .fail hlive
  | create pid host name =>
    obtain ⟨process, hlive, hcreate⟩ := Option.bind_eq_some_iff.mp hstep
    split_ifs at hcreate with hallowed
    cases hcreate
    exact .create hlive hallowed.1 hallowed.2.1 hallowed.2.2
  | drop pid =>
    obtain ⟨process, hlive, hdrop⟩ := Option.bind_eq_some_iff.mp hstep
    split_ifs at hdrop
    cases hdrop
    exact .drop hlive
  | kill pid =>
    cases hstep
    exact .kill

end Inversion

/-! ## What is left to do -/

/-- Each call that is left finds the lock it works under among those held, up to the
call that unlocks it, and what it removes is a root. -/
def Covered (opened : Handle → Prop) : List Handle → List Op → Prop
  | _, [] => True
  | held, .tryLock handle _ :: rest => opened handle ∧ Covered opened held rest
  | held, .scan handle _ :: rest => handle ∈ held ∧ Covered opened held rest
  | held, .remove handle name _ :: rest => handle ∈ held ∧ isRoot name ∧ Covered opened held rest
  | held, .unlock handle :: rest => handle ∈ held ∧ Covered opened (held.erase handle) rest
  | held, .ensure _ _ :: rest | held, .openLock _ _ :: rest | held, .listHosts :: rest
  | held, .work :: rest => Covered opened held rest

namespace Covered

variable {opened : Handle → Prop} {held : List Handle} {ops rest : List Op} {handle : Handle}

/-- Neither more lock files nor more locks that are held do harm. -/
theorem mono {opened' : Handle → Prop} {held' : List Handle}
    (hopened : ∀ handle, opened handle → opened' handle) (hheld : held.Subperm held')
    (hcovered : Covered opened held ops) : Covered opened' held' ops := by
  induction ops generalizing held held' with
  | nil => trivial
  | cons op rest ih =>
    cases op with
    | ensure | openLock | listHosts | work => exact ih hheld hcovered
    | tryLock handle required => exact ⟨hopened handle hcovered.1, ih hheld hcovered.2⟩
    | scan handle purpose => exact ⟨hheld.subset hcovered.1, ih hheld hcovered.2⟩
    | remove handle name purpose =>
      exact ⟨hheld.subset hcovered.1, hcovered.2.1, ih hheld hcovered.2.2⟩
    | unlock handle => exact ⟨hheld.subset hcovered.1, ih (hheld.erase handle) hcovered.2⟩

theorem map_ensure (hosts : List Host) (required : Bool) (hrest : Covered opened held rest) :
    Covered opened held (hosts.map (fun host => .ensure host required) ++ rest) := by
  induction hosts with
  | nil => exact hrest
  | cons host hosts ih => exact ih

theorem map_remove {names : List String} (hhandle : handle ∈ held)
    (hnames : ∀ name ∈ names, isRoot name) (purpose : Purpose)
    (hrest : Covered opened held rest) :
    Covered opened held (names.map (fun name => .remove handle name purpose) ++ rest) := by
  induction names with
  | nil => exact hrest
  | cons name names ih =>
    rw [List.forall_mem_cons] at hnames
    exact ⟨hhandle, hnames.1, ih hnames.2⟩

theorem dropWhile (hcovered : Covered opened held ops) (handle : Handle) :
    Covered opened held (ops.dropWhile (Op.isRemoveOf handle)) := by
  induction ops with
  | nil => trivial
  | cons op rest ih =>
    rw [List.dropWhile_cons]
    split_ifs with hremove
    · cases op with
      | remove other name purpose => exact ih hcovered.2.2
      | ensure | openLock | listHosts | work | tryLock | scan | unlock => cases hremove
    · exact hcovered

/-- Releasing every lock that is held is covered. -/
theorem releaseOps (opened : Handle → Prop) (held : List Handle) :
    Covered opened held (releaseOps held) := by
  induction held with
  | nil => trivial
  | cons handle held ih =>
    refine ⟨List.mem_cons_self, List.mem_cons_self, ?_⟩
    rw [List.erase_cons_head]
    exact ih

/-- So is releasing one of them first. -/
theorem releaseOps_first (opened : Handle → Prop) (hhandle : handle ∈ held) :
    Covered opened held (FleetTools.releaseOps (handle :: held.erase handle)) :=
  (releaseOps opened _).mono (fun _ => id) (List.perm_cons_erase hhandle).symm.subperm

theorem lockOps (opened : Handle → Prop) (hosts : List Host) :
    Covered opened [] (lockOps hosts) :=
  map_ensure _ true (show Covered opened [] [.listHosts, .work] from trivial)

/-- A lock that was just taken covers what follows. -/
theorem afterLock (hcovered : Covered opened held rest) (hnew : handle ∉ held) (required : Bool) :
    Covered opened (held ++ [handle]) (afterLock handle required rest) := by
  have hmem : handle ∈ held ++ [handle] := List.mem_append_right _ List.mem_cons_self
  refine ⟨hmem, ?_⟩
  cases required with
  | true => exact hcovered.mono (fun _ => id) (List.sublist_append_left held _).subperm
  | false =>
    refine ⟨hmem, hmem, ?_⟩
    rw [List.erase_append_right _ hnew]
    simpa using hcovered

end Covered

/-- Whatever fails, what is left is covered. -/
theorem covered_failed {opened : Handle → Prop} {process : Process}
    (hcovered : Covered opened process.held process.todo) :
    Covered opened process.held process.failed := by
  unfold Process.failed
  generalize process.todo = todo at hcovered
  split
  · exact hcovered.2
  · exact hcovered.2.2.dropWhile _
  · exact .releaseOps_first opened hcovered.1
  · exact .releaseOps_first opened hcovered.1
  · exact hcovered
  · exact .releaseOps opened _

/-! ## Files that stay -/

namespace Machine

variable {machine after : Machine} {pid : Pid} {process : Process}

def LockFile (machine : Machine) (handle : Handle) : Prop :=
  machine.entry handle.host lockName = some (.file handle.inode)

theorem entry_saveEntry (machine : Machine) (row : DirEntry) (host : Host) (name : String) :
    (machine.saveEntry row).entry host name =
      if (host, name) = row.path then some row.kind else machine.entry host name := by
  rw [entry, saveEntry, Table.find_save]
  split <;> rfl

theorem entry_removeEntry (machine : Machine) (gone host : Host) (removed name : String) :
    (machine.removeEntry gone removed).entry host name =
      if (host, name) = (gone, removed) then none else machine.entry host name := by
  rw [entry, removeEntry, Table.find_erase]
  split <;> rfl

variable {host : Host} {name : String} {handle : Handle} {rest : List Op}

theorem isRoot_of_mem_roots (hmem : name ∈ machine.roots host) :
    isRoot name := by
  obtain ⟨row, hrow, rfl⟩ := List.mem_map.mp hmem
  have hfound := (List.mem_filter.mp hrow).2
  simp only [decide_eq_true_eq] at hfound
  exact hfound.2.1

theorem ne_lockName_of_isRoot (hroot : isRoot name) : name ≠ lockName := by
  rintro rfl
  exact absurd hroot (by decide)

theorem processes_proceed (machine : Machine) (pid other : Pid) (process : Process) :
    (machine.proceed pid process).processes other =
      if other = pid then some process else machine.processes other :=
  Function.update_apply ..

theorem locks_setLock_self (machine : Machine) (inode : Nat) (owner : Option Pid) :
    (machine.setLock inode owner).locks inode = owner := Function.update_self ..

theorem locks_setLock_of_ne (machine : Machine) {inode other : Nat} (owner : Option Pid)
    (hne : other ≠ inode) : (machine.setLock inode owner).locks other = machine.locks other :=
  Function.update_of_ne hne ..

/-- No two hosts share a lock file, and the next file is a new one. -/
structure LockFiles (machine : Machine) : Prop where
  unique : ∀ first second, machine.LockFile first → machine.LockFile second →
    first.inode = second.inode → first = second
  fresh : ∀ handle, machine.LockFile handle → handle.inode < machine.nextInode

/-- The lock of a host has one file. -/
theorem LockFile.eq {first second : Handle} (hfirst : machine.LockFile first)
    (hsecond : machine.LockFile second) (hhost : first.host = second.host) : first = second := by
  obtain ⟨host, inode⟩ := first
  obtain ⟨other, inode'⟩ := second
  cases hhost
  cases hfirst.symm.trans hsecond
  rfl

/-- What is known of a process. -/
structure Knows (machine : Machine) (pid : Pid) (process : Process) : Prop where
  covered : Covered machine.LockFile process.held process.todo
  distinct : process.held.Nodup
  opened : ∀ handle ∈ process.held, machine.LockFile handle
  owned : ∀ handle ∈ process.held, machine.locks handle.inode = some pid

structure Sound (machine : Machine) : Prop where
  files : machine.LockFiles
  processes : ∀ pid process, machine.processes pid = some process → machine.Knows pid process

theorem sound_empty : empty.Sound :=
  ⟨⟨fun _ _ hfirst => (by cases hfirst), fun _ hfile => (by cases hfile)⟩,
    fun _ _ hprocess => by cases hprocess⟩

/-- What is known of a process stays known while its lock files stay and its locks
do. -/
theorem Knows.frame (hknows : machine.Knows pid process)
    (hfiles : ∀ handle, machine.LockFile handle → after.LockFile handle)
    (hlocks : ∀ handle ∈ process.held, after.locks handle.inode = machine.locks handle.inode) :
    after.Knows pid process :=
  ⟨hknows.covered.mono hfiles (.refl _), hknows.distinct,
    fun handle hmem => hfiles handle (hknows.opened handle hmem),
    fun handle hmem => (hlocks handle hmem).trans (hknows.owned handle hmem)⟩

/-- A process goes on after a change to files and to its own locks. -/
theorem Sound.proceed {changed : Machine} (hsound : machine.Sound)
    (hfiles : changed.LockFiles)
    (hprocesses : changed.processes = machine.processes)
    (hkept : ∀ handle, machine.LockFile handle → changed.LockFile handle)
    (hlocks : ∀ inode owner, owner ≠ pid → machine.locks inode = some owner →
      changed.locks inode = some owner)
    (hknows : changed.Knows pid process) : (changed.proceed pid process).Sound := by
  refine ⟨⟨hfiles.unique, hfiles.fresh⟩, fun other found hfound => ?_⟩
  rw [processes_proceed] at hfound
  split_ifs at hfound with hother
  · rw [hother]
    cases hfound
    exact ⟨hknows.covered, hknows.distinct, hknows.opened, hknows.owned⟩
  · rw [hprocesses] at hfound
    have hold := hsound.processes other found hfound
    refine hold.frame hkept fun handle hmem => ?_
    have howned := hold.owned handle hmem
    rw [howned]
    exact hlocks handle.inode other hother howned

/-- A process goes on and nothing else changes. -/
theorem Sound.proceed_only (hsound : machine.Sound) (hknows : machine.Knows pid process) :
    (machine.proceed pid process).Sound :=
  hsound.proceed hsound.files rfl (fun _ hfile => hfile) (fun _ _ _ hlock => hlock) hknows

theorem lockFile_createLock (hnone : machine.entry host lockName = none) :
    (machine.createLock host).LockFile handle ↔
      handle = ⟨host, machine.nextInode⟩ ∨ machine.LockFile handle := by
  rw [LockFile, LockFile]
  change (machine.saveEntry ⟨host, lockName, .file machine.nextInode⟩).entry handle.host lockName =
    _ ↔ _
  rw [entry_saveEntry]
  by_cases hhost : handle.host = host
  · rw [if_pos (by rw [hhost]; rfl), hhost, hnone]
    obtain ⟨name, inode⟩ := handle
    cases hhost
    simp [eq_comm]
  · have hpath : (handle.host, lockName) ≠ DirEntry.path ⟨host, lockName, .file machine.nextInode⟩ :=
      fun heq => hhost (congrArg Prod.fst heq)
    rw [if_neg hpath]
    refine ⟨.inr, fun hfile => hfile.resolve_left fun heq => hhost (by rw [heq])⟩

/-- A new lock file is no file that there was. -/
theorem LockFiles.createLock (hfiles : machine.LockFiles)
    (hnone : machine.entry host lockName = none) : (machine.createLock host).LockFiles := by
  constructor
  · intro first second hfirst hsecond hinode
    rcases (lockFile_createLock hnone).mp hfirst with rfl | hfirst
    · rcases (lockFile_createLock hnone).mp hsecond with rfl | hsecond
      · rfl
      · exact absurd hinode.symm (hfiles.fresh second hsecond).ne
    · rcases (lockFile_createLock hnone).mp hsecond with rfl | hsecond
      · exact absurd hinode (hfiles.fresh first hfirst).ne
      · exact hfiles.unique first second hfirst hsecond hinode
  · intro handle hfile
    rcases (lockFile_createLock hnone).mp hfile with rfl | hfile
    · exact Nat.lt_succ_self _
    · exact (hfiles.fresh handle hfile).trans (Nat.lt_succ_self _)

/-- Removing a root leaves every lock file. -/
theorem lockFile_removeEntry (hroot : isRoot name) :
    (machine.removeEntry host name).LockFile handle ↔
      machine.LockFile handle := by
  have hpath : (handle.host, lockName) ≠ (host, name) := fun heq =>
    ne_lockName_of_isRoot hroot (congrArg Prod.snd heq).symm
  rw [LockFile, entry_removeEntry, if_neg hpath, LockFile]

/-- So does creating one. -/
theorem lockFile_saveRoot (hroot : isRoot name) :
    (machine.saveEntry ⟨host, name, .symlink⟩).LockFile handle ↔
      machine.LockFile handle := by
  have hpath : (handle.host, lockName) ≠ DirEntry.path ⟨host, name, .symlink⟩ := fun heq =>
    ne_lockName_of_isRoot hroot (congrArg Prod.snd heq).symm
  rw [LockFile, entry_saveEntry, if_neg hpath, LockFile]

theorem LockFiles.congr (hfiles : machine.LockFiles)
    (hsame : ∀ handle, after.LockFile handle ↔ machine.LockFile handle)
    (hnext : after.nextInode = machine.nextInode) : after.LockFiles :=
  ⟨fun first second hfirst hsecond =>
    hfiles.unique first second ((hsame first).mp hfirst) ((hsame second).mp hsecond),
    fun handle hfile => hnext ▸ hfiles.fresh handle ((hsame handle).mp hfile)⟩

/-! ## One step -/

/-- Taking a free lock. -/
theorem Sound.takeLock (hsound : machine.Sound) {required : Bool}
    (hprocess : machine.processes pid = some process)
    (htodo : process.todo = .tryLock handle required :: rest)
    (hfree : machine.locks handle.inode = none) :
    ((machine.setLock handle.inode (some pid)).proceed pid
      { process with
        held := process.held ++ [handle]
        todo := afterLock handle required rest }).Sound := by
  have hknows := hsound.processes pid process hprocess
  obtain ⟨hopened, hrest⟩ : machine.LockFile handle ∧
      Covered machine.LockFile process.held rest := by
    have hcovered := hknows.covered
    rw [htodo] at hcovered
    exact hcovered
  have hfreed : ∀ inode owner, machine.locks inode = some owner → inode ≠ handle.inode := by
    rintro inode owner hlock rfl
    rw [hfree] at hlock
    cases hlock
  have hnew : handle ∉ process.held := fun hmem =>
    hfreed handle.inode pid (hknows.owned handle hmem) rfl
  refine hsound.proceed ⟨hsound.files.unique, hsound.files.fresh⟩ rfl (fun _ hfile => hfile)
    (fun inode owner _ hlock => ?_) ⟨hrest.afterLock hnew required, ?_, ?_, ?_⟩
  · rw [locks_setLock_of_ne _ _ (hfreed inode owner hlock)]
    exact hlock
  · exact List.nodup_append.mpr ⟨hknows.distinct, List.nodup_singleton _,
      fun first hfirst second hsecond heq => hnew (List.mem_singleton.mp hsecond ▸ heq ▸ hfirst)⟩
  · exact List.forall_mem_append.mpr ⟨hknows.opened, List.forall_mem_singleton.mpr hopened⟩
  · refine List.forall_mem_append.mpr ⟨fun other hmem => ?_,
      List.forall_mem_singleton.mpr (locks_setLock_self ..)⟩
    have howned := hknows.owned other hmem
    rw [locks_setLock_of_ne _ _ (hfreed _ _ howned)]
    exact howned

/-- Releasing a lock that is held. -/
theorem Sound.releaseLock (hsound : machine.Sound) (hprocess : machine.processes pid = some process)
    (htodo : process.todo = .unlock handle :: rest) :
    ((machine.setLock handle.inode none).proceed pid
      { process with held := process.held.erase handle, todo := rest }).Sound := by
  have hknows := hsound.processes pid process hprocess
  obtain ⟨hmem, hrest⟩ : handle ∈ process.held ∧
      Covered machine.LockFile (process.held.erase handle) rest := by
    have hcovered := hknows.covered
    rw [htodo] at hcovered
    exact hcovered
  have howner := hknows.owned handle hmem
  refine hsound.proceed ⟨hsound.files.unique, hsound.files.fresh⟩ rfl (fun _ hfile => hfile)
    (fun inode owner hother hlock => ?_) ⟨hrest, hknows.distinct.erase handle, ?_, ?_⟩
  · have hinode : inode ≠ handle.inode := by
      rintro rfl
      exact hother (Option.some.inj (hlock.symm.trans howner))
    rw [locks_setLock_of_ne _ _ hinode]
    exact hlock
  · exact fun other hother => hknows.opened other (List.mem_of_mem_erase hother)
  · intro other hother
    obtain ⟨hne, hheld⟩ := hknows.distinct.mem_erase_iff.mp hother
    -- Another lock is on another file.
    have hinode : other.inode ≠ handle.inode := fun heq =>
      hne (hsound.files.unique other handle (hknows.opened other hheld)
        (hknows.opened handle hmem) heq)
    rw [locks_setLock_of_ne _ _ hinode]
    exact hknows.owned other hheld

/-- What a process knows is kept when only what is left to do changes. -/
theorem Knows.todo (hknows : machine.Knows pid process) {todo : List Op}
    (hcovered : Covered machine.LockFile process.held todo) :
    machine.Knows pid { process with todo := todo } :=
  ⟨hcovered, hknows.distinct, hknows.opened, hknows.owned⟩

theorem Sound.perform (hsound : machine.Sound) {listing : List String}
    (hprocess : machine.processes pid = some process)
    (hperforms : machine.Performs pid process listing after) : after.Sound := by
  have hknows := hsound.processes pid process hprocess
  have hcovered := hknows.covered
  cases hperforms with
  | @ensured host required rest htodo =>
    rw [htodo] at hcovered
    have hrest : Covered machine.LockFile process.held (.openLock host required :: rest) := hcovered
    exact hsound.proceed ⟨hsound.files.unique, hsound.files.fresh⟩ rfl (fun _ hfile => hfile)
      (fun _ _ _ hlock => hlock) ((hknows.todo hrest).frame (fun _ hfile => hfile) fun _ _ => rfl)
  | opened htodo hfile =>
    rw [htodo] at hcovered
    exact hsound.proceed_only (hknows.todo ⟨hfile, hcovered⟩)
  | @created host _ _ htodo hnone =>
    -- a lock file appears and none goes
    rw [htodo] at hcovered
    have hkept : ∀ handle, machine.LockFile handle → (machine.createLock host).LockFile handle :=
      fun handle hfile => (lockFile_createLock hnone).mpr (.inr hfile)
    have hcreated : (machine.createLock host).LockFile ⟨host, machine.nextInode⟩ :=
      (lockFile_createLock hnone).mpr (.inl rfl)
    exact hsound.proceed (hsound.files.createLock hnone) rfl hkept (fun _ _ _ hlock => hlock)
      ((hknows.frame hkept fun _ _ => rfl).todo ⟨hcreated, hcovered.mono hkept (.refl _)⟩)
  | taken htodo hfree => exact hsound.takeLock hprocess htodo hfree
  | refused htodo =>
    -- a required host gives up and releases all, another one is passed over
    rw [htodo] at hcovered
    refine hsound.proceed_only (hknows.todo ?_)
    split
    · exact .releaseOps _ _
    · exact hcovered.2
  | scanned htodo hlisted =>
    rw [htodo] at hcovered
    refine hsound.proceed_only (hknows.todo (.map_remove hcovered.1 ?_ _ hcovered.2))
    exact fun name hmem => isRoot_of_mem_roots (hlisted.mem_iff.mp hmem)
  | @removed handle name _ _ htodo =>
    -- a root is not the lock file, so every lock file stays
    rw [htodo] at hcovered
    have hsame : ∀ other, (machine.removeEntry handle.host name).LockFile other ↔
        machine.LockFile other := fun other => lockFile_removeEntry hcovered.2.1
    have hkept : ∀ other, machine.LockFile other →
        (machine.removeEntry handle.host name).LockFile other := fun other => (hsame other).mpr
    exact hsound.proceed (hsound.files.congr hsame rfl) rfl hkept (fun _ _ _ hlock => hlock)
      ((hknows.frame hkept fun _ _ => rfl).todo (hcovered.2.2.mono hkept (.refl _)))
  | unlocked htodo => exact hsound.releaseLock hprocess htodo
  | listed htodo =>
    rw [htodo] at hcovered
    exact hsound.proceed_only (hknows.todo (.map_ensure _ false hcovered))

/-- A process that is killed takes its own locks along and nothing else. -/
theorem Sound.kill (hsound : machine.Sound) (pid : Pid) :
    Sound { machine with
      locks := fun inode => if machine.locks inode = some pid then none else machine.locks inode
      processes := Function.update machine.processes pid none } := by
  refine ⟨⟨hsound.files.unique, hsound.files.fresh⟩, fun other found hfound => ?_⟩
  have hfound : Function.update machine.processes pid none other = some found := hfound
  rw [Function.update_apply] at hfound
  split_ifs at hfound with hother
  have hknows := hsound.processes other found hfound
  refine hknows.frame (fun _ hfile => hfile) fun handle hmem => if_neg fun hlock => ?_
  exact hother (Option.some.inj ((hknows.owned handle hmem).symm.trans hlock))

theorem Sound.next (hsound : machine.Sound) {event : Event} (hstep : Step machine event after) :
    after.Sound := by
  cases hstep.moves with
  | start => exact hsound.proceed_only ⟨.lockOps _ _, List.nodup_nil, by simp, by simp⟩
  | perform hlive hperforms => exact hsound.perform hlive hperforms
  | fail hlive =>
    have hknows := hsound.processes _ _ hlive
    exact hsound.proceed_only (hknows.todo (covered_failed hknows.covered))
  | @create _ host name _ _ _ _ hroot =>
    have hsame : ∀ handle, (machine.saveEntry ⟨host, name, .symlink⟩).LockFile handle ↔
        machine.LockFile handle := fun handle => lockFile_saveRoot hroot
    refine ⟨hsound.files.congr hsame rfl, fun other found hfound => ?_⟩
    exact (hsound.processes other found hfound).frame (fun handle => (hsame handle).mpr)
      fun _ _ => rfl
  | drop hlive =>
    exact hsound.proceed_only ((hsound.processes _ _ hlive).todo (.releaseOps _ _))
  | kill => exact hsound.kill _

end Machine

end NixConfig.FleetTools
