/-
# Roots are cleared by their owner

However deployments interleave, fail and are killed, a host belongs to the one
process that holds its lock. Another process may be about to clear the roots of
that host, but only under a lock that it does not get. So a root that goes while
a process holds the lock is cleared by that process. Either the process has just
taken the lock, and the root was there before it did: whoever had the lock before
died, or failed to clear it. Or the process is about to give the lock back.

A root that the process made itself is safe until then, since it makes roots only
at work, when all locks are taken, and returns from there only to release.
-/

import Mathlib.Data.List.Dedup
import NixConfig.FleetTools.DeployState

namespace NixConfig.FleetTools

open Data Semantics

variable {machine after : Machine} {event : Event} {pid : Pid}

theorem Machine.sound_of_reaches {past : List (Machine × Event)}
    (hrun : Reaches Step .empty past machine) : machine.Sound :=
  hrun.invariant (fun _ machine => machine.Sound) Machine.sound_empty
    fun _ hsound hstep => hsound.next hstep

/-! ## How entries change -/

variable {process : Process} {listing : List String} {host : Host} {name : String}
  {past : List (Machine × Event)}

/-- The process is at work on a host. -/
def Machine.Works (machine : Machine) (pid : Pid) (host : Host) : Prop :=
  ∃ process, machine.processes pid = some process ∧ process.todo.head? = some .work ∧
    host ∈ process.selected

/-- A call changes no entry, except that it creates a lock file that was missing or
removes a root. -/
theorem Machine.Performs.entry (hprocess : machine.processes pid = some process)
    (hperforms : machine.Performs pid process listing after) (host : Host) (name : String) :
    after.entry host name = machine.entry host name ∨
      (name = lockName ∧ machine.entry host name = none) ∨
      after.entry host name = none ∧
        ∃ purpose, Clears machine (.perform pid listing) pid host name purpose := by
  cases hperforms with
  | ensured | opened | taken | refused | scanned | unlocked | listed => exact .inl rfl
  | @created made _ _ _ hnone =>
    change (machine.saveEntry ⟨made, lockName, .file machine.nextInode⟩).entry host name = _ ∨ _
    rw [Machine.entry_saveEntry]
    split_ifs with hpath
    · cases hpath
      exact .inr (.inl ⟨rfl, hnone⟩)
    · exact .inl rfl
  | @removed handle gone purpose rest htodo =>
    change (machine.removeEntry handle.host gone).entry host name = _ ∨ _ ∨
      (machine.removeEntry handle.host gone).entry host name = _ ∧ _
    rw [Machine.entry_removeEntry]
    split_ifs with hpath
    · cases hpath
      exact .inr (.inr ⟨rfl, purpose, process, handle, rest, listing, rfl, hprocess, rfl, htodo⟩)
    · exact .inl rfl

/-- An entry changes only as a lock file that was missing, as a root that a process at
work creates, or as a root that is cleared. -/
theorem Machine.entry_next (hstep : Step machine event after) (host : Host) (name : String) :
    after.entry host name = machine.entry host name ∨
      (name = lockName ∧ machine.entry host name = none) ∨
      (isRoot name ∧ after.entry host name = some .symlink ∧ ∃ pid, machine.Works pid host) ∨
      after.entry host name = none ∧ ∃ pid purpose, Clears machine event pid host name purpose := by
  cases hstep.moves with
  | start | fail | drop | kill => exact .inl rfl
  | @perform pid _ _ _ hlive hperforms =>
    rcases hperforms.entry hlive host name with hsame | hcreated | ⟨hgone, hclears⟩
    · exact .inl hsame
    · exact .inr (.inl hcreated)
    · exact .inr (.inr (.inr ⟨hgone, pid, hclears⟩))
  | @create pid _ _ process hlive hworking hselected hroot =>
    rw [Machine.entry_saveEntry]
    split_ifs with hpath
    · cases hpath
      exact .inr (.inr (.inl ⟨hroot, rfl, pid, process, hlive, hworking, hselected⟩))
    · exact .inl rfl

/-! ## Who clears -/

/-- A process clears a root under the lock of its host. -/
theorem Machine.Sound.holds_of_clears (hsound : machine.Sound) {purpose : Purpose} (hclears : Clears machine event pid host name purpose) :
    machine.Holds pid host ∧ isRoot name := by
  obtain ⟨process, handle, rest, listing, -, hprocess, hhost, htodo⟩ := hclears
  have hcovered := (hsound.processes pid process hprocess).covered
  rw [htodo] at hcovered
  exact ⟨⟨process, handle, hprocess, hcovered.1, hhost⟩, hcovered.2.1⟩

/-- One process at a time holds the lock of a host. -/
theorem Machine.Sound.eq_of_holds (hsound : machine.Sound) {first second : Pid}
    (hfirst : machine.Holds first host) (hsecond : machine.Holds second host) :
    first = second := by
  obtain ⟨process, handle, hprocess, hmem, hhost⟩ := hfirst
  obtain ⟨process', handle', hprocess', hmem', hhost'⟩ := hsecond
  have hknows := hsound.processes first process hprocess
  have hknows' := hsound.processes second process' hprocess'
  -- Both have locked the same file, since the host has only one.
  have hsame : handle = handle' :=
    (hknows.opened handle hmem).eq (hknows'.opened handle' hmem') (hhost.trans hhost'.symm)
  have howner := hknows.owned handle hmem
  have howner' := hknows'.owned handle' hmem'
  rw [← hsame] at howner'
  exact Option.some.inj (howner.symm.trans howner')

/-- The lock file of a host stays what it is. -/
theorem Machine.Sound.lockFile_next (hsound : machine.Sound) (hstep : Step machine event after)
    {inode : Nat} (hfile : machine.entry host lockName = some (.file inode)) :
    after.entry host lockName = some (.file inode) := by
  rcases Machine.entry_next hstep host lockName with
    hsame | ⟨-, hnone⟩ | ⟨hroot, -⟩ | ⟨-, pid, purpose, hclears⟩
  · rw [hsame, hfile]
  · rw [hfile] at hnone
    cases hnone
  · exact absurd rfl (Machine.ne_lockName_of_isRoot hroot)
  · exact absurd rfl (Machine.ne_lockName_of_isRoot (hsound.holds_of_clears hclears).2)

/-! ## The order of calls -/

/-- The call clears what was found when the lock was taken. -/
def Op.Acquires (handle : Handle) (op : Op) : Prop :=
  op = .scan handle .acquire ∨ ∃ name, op = .remove handle name .acquire

/-- All that is done before the lock is released is to remove roots. -/
def Unlocks (handle : Handle) (ops : List Op) : Prop :=
  ∃ (names : List String) (rest : List Op),
    ops = names.map (fun name => .remove handle name .release) ++ .unlock handle :: rest

/-- What is left once the roots that were found with a lock are cleared. No more of
them are cleared, a release ends with the unlocking, and work starts when the locks
of all selected hosts are held. -/
def Tidy (selected : List Host) : List Host → List Op → Prop
  | _, [] => True
  | held, .ensure host required :: rest | held, .openLock host required :: rest =>
    Tidy selected (if required then host :: held else held) rest
  | held, .tryLock handle required :: rest =>
    Tidy selected (if required then handle.host :: held else held) rest
  | _, .scan _ .acquire :: _ | _, .remove _ _ .acquire :: _ => False
  | held, .scan handle .release :: rest | held, .remove handle _ .release :: rest =>
    Unlocks handle rest ∧ Tidy selected held rest
  | held, .unlock handle :: rest => Tidy selected (held.erase handle.host) rest
  | held, .listHosts :: rest => Tidy selected held rest
  | held, .work :: rest => (∀ host ∈ selected, host ∈ held) ∧ Tidy selected held rest

theorem Unlocks.map_remove {handle : Handle} {rest : List Op} (hrest : Unlocks handle rest)
    (names : List String) :
    Unlocks handle (names.map (fun name => .remove handle name .release) ++ rest) := by
  obtain ⟨more, last, rfl⟩ := hrest
  exact ⟨names ++ more, last, by rw [List.map_append, List.append_assoc]⟩

namespace Tidy

variable {selected held : List Host} {op : Op} {ops rest : List Op} {handle : Handle}

/-- More locks that are held do no harm. -/
theorem mono {held' : List Host} (hheld : held.Subperm held') (htidy : Tidy selected held ops) :
    Tidy selected held' ops := by
  induction ops generalizing held held' with
  | nil => trivial
  | cons op rest ih =>
    have hrequired (host : Host) (required : Bool) :
        (if required then host :: held else held).Subperm
          (if required then host :: held' else held') := by
      split
      · exact List.subperm_cons host |>.mpr hheld
      · exact hheld
    cases op with
    | ensure host required | openLock host required => exact ih (hrequired host required) htidy
    | tryLock handle required => exact ih (hrequired handle.host required) htidy
    | scan handle purpose | remove handle name purpose =>
      cases purpose with
      | acquire => exact htidy
      | release => exact ⟨htidy.1, ih hheld htidy.2⟩
    | unlock handle => exact ih (hheld.erase handle.host) htidy
    | listHosts => exact ih hheld htidy
    | work => exact ⟨fun host hmem => hheld.subset (htidy.1 host hmem), ih hheld htidy.2⟩

theorem not_acquires (htidy : Tidy selected held (op :: rest)) : ¬ op.Acquires handle := by
  rintro (rfl | ⟨name, rfl⟩)
  · exact htidy
  · exact htidy

theorem map_ensure (hosts : List Host) (hrest : Tidy selected held rest) :
    Tidy selected held (hosts.map (fun host => .ensure host false) ++ rest) := by
  induction hosts with
  | nil => exact hrest
  | cons host hosts ih => exact ih

theorem map_remove (hunlocks : Unlocks handle rest) (hrest : Tidy selected held rest)
    (names : List String) :
    Tidy selected held (names.map (fun name => .remove handle name .release) ++ rest) := by
  induction names with
  | nil => exact hrest
  | cons name names ih => exact ⟨hunlocks.map_remove names, ih⟩

theorem dropWhile (htidy : Tidy selected held ops) (handle : Handle) :
    Tidy selected held (ops.dropWhile (Op.isRemoveOf handle)) := by
  induction ops with
  | nil => trivial
  | cons op rest ih =>
    rw [List.dropWhile_cons]
    split_ifs with hremove
    · cases op with
      | remove other name purpose =>
        cases purpose with
        | acquire => exact htidy.elim
        | release => exact ih htidy.2
      | ensure | openLock | listHosts | work | tryLock | scan | unlock => cases hremove
    · exact htidy

theorem releaseOps (selected held : List Host) (handles : List Handle) :
    Tidy selected held (releaseOps handles) := by
  induction handles generalizing held with
  | nil => trivial
  | cons handle handles ih => exact ⟨⟨[], _, rfl⟩, ih _⟩

theorem map_required {hosts : List Host}
    (hselected : ∀ host ∈ selected, host ∈ hosts ∨ host ∈ held) :
    Tidy selected held (hosts.map (fun host => .ensure host true) ++ [.listHosts, .work]) := by
  induction hosts generalizing held with
  | nil =>
    exact ⟨fun host hmem => (hselected host hmem).resolve_left List.not_mem_nil, trivial⟩
  | cons first hosts ih =>
    refine ih fun host hmem => ?_
    rcases hselected host hmem with hmem | hmem
    · rcases List.mem_cons.mp hmem with rfl | hmem
      · exact .inr List.mem_cons_self
      · exact .inl hmem
    · exact .inr (List.mem_cons_of_mem _ hmem)

theorem lockOps (hosts : List Host) : Tidy hosts [] (lockOps hosts) := by
  refine map_required fun host hmem => .inl ?_
  exact (List.perm_insertionSort ..).mem_iff.mpr (List.mem_dedup.mpr hmem)

/-- What follows the clearing of what was found with a lock. -/
theorem afterLock {required : Bool}
    (htidy : Tidy selected held (.tryLock handle required :: rest)) :
    Tidy selected (held ++ [handle.host])
      (if required then rest else .scan handle .release :: .unlock handle :: rest) := by
  have hperm : (handle.host :: held).Perm (held ++ [handle.host]) := (List.perm_append_singleton ..).symm
  cases required with
  | true => exact htidy.mono hperm.subperm
  | false =>
    have herase : held.Perm ((held ++ [handle.host]).erase handle.host) := by
      simpa using hperm.erase handle.host
    have hrest : Tidy selected ((held ++ [handle.host]).erase handle.host) rest :=
      mono herase.subperm htidy
    exact ⟨⟨[], rest, rfl⟩, hrest⟩

end Tidy

/-- A process clears what it found with one lock, if it does, and goes on from there. -/
def Process.Tidy (process : Process) : Prop :=
  ∃ handle front rest, process.todo = front ++ rest ∧ (∀ op ∈ front, Op.Acquires handle op) ∧
    FleetTools.Tidy process.selected (process.held.map Handle.host) rest

/-- The next call clears what was found with a lock. -/
def Process.Acquires (process : Process) (handle : Handle) : Prop :=
  ∃ op rest, process.todo = op :: rest ∧ op.Acquires handle

theorem Process.Tidy.of_todo
    (htidy : FleetTools.Tidy process.selected (process.held.map Handle.host) process.todo) :
    process.Tidy :=
  ⟨⟨"", 0⟩, [], process.todo, rfl, fun _ hmem => (by cases hmem), htidy⟩

section Order

variable {op : Op} {rest : List Op} {handle : Handle}

theorem Op.Acquires.eq {other : Handle} (hop : op.Acquires handle) (hother : op.Acquires other) :
    handle = other := by
  rcases hop with rfl | ⟨name, rfl⟩
  · rcases hother with heq | ⟨name, heq⟩
    · cases heq
      rfl
    · cases heq
  · rcases hother with heq | ⟨name, heq⟩
    · cases heq
    · cases heq
      rfl

/-- Once nothing is left of what was found, the rest is tidy. -/
theorem Process.Tidy.todo (htidy : process.Tidy) (hnone : ∀ handle, ¬ process.Acquires handle) :
    FleetTools.Tidy process.selected (process.held.map Handle.host) process.todo := by
  obtain ⟨handle, front, rest, htodo, hfront, hrest⟩ := htidy
  cases front with
  | nil => exact htodo ▸ hrest
  | cons op front =>
    exact absurd ⟨op, front ++ rest, htodo, hfront op List.mem_cons_self⟩ (hnone handle)

/-- A call that is not about what was found is one of the rest. -/
theorem Process.Tidy.cons (htidy : process.Tidy) (htodo : process.todo = op :: rest)
    (hop : ∀ handle, ¬ op.Acquires handle) :
    FleetTools.Tidy process.selected (process.held.map Handle.host) (op :: rest) := by
  rw [← htodo]
  refine htidy.todo ?_
  rintro handle ⟨first, others, hfirst, hacquires⟩
  cases htodo.symm.trans hfirst
  exact hop handle hacquires

/-- Behind a call that clears what was found are others of the same lock, and the
rest. -/
theorem Process.Tidy.front (htidy : process.Tidy) (htodo : process.todo = op :: rest)
    (hop : op.Acquires handle) :
    ∃ front last, rest = front ++ last ∧ (∀ op ∈ front, Op.Acquires handle op) ∧
      FleetTools.Tidy process.selected (process.held.map Handle.host) last := by
  obtain ⟨found, front, last, hsplit, hfront, hlast⟩ := htidy
  rw [htodo] at hsplit
  cases front with
  | nil =>
    rw [List.nil_append] at hsplit
    rw [← hsplit] at hlast
    exact absurd hop hlast.not_acquires
  | cons first front =>
    obtain ⟨rfl, hrest⟩ := List.cons.inj hsplit
    rw [(hfront op List.mem_cons_self).eq hop] at hfront
    exact ⟨front, last, hrest, fun op hmem => hfront op (List.mem_cons_of_mem _ hmem), hlast⟩

end Order

/-- The hosts that are left when a lock is released. -/
theorem subperm_map_erase (held : List Handle) (handle : Handle) :
    ((held.map Handle.host).erase handle.host).Subperm ((held.erase handle).map Handle.host) := by
  by_cases hmem : handle ∈ held
  · have hperm := ((List.perm_cons_erase hmem).map Handle.host).erase handle.host
    rw [List.map_cons, List.erase_cons_head] at hperm
    exact hperm.subperm
  · rw [List.erase_of_not_mem hmem]
    exact List.erase_sublist.subperm

/-- A process is about to take a lock that is free. -/
def Machine.Takes (machine : Machine) (pid : Pid) (handle : Handle) : Prop :=
  ∃ process required rest, machine.processes pid = some process ∧
    process.todo = .tryLock handle required :: rest ∧ machine.locks handle.inode = none

def Machine.Acquires (machine : Machine) (pid : Pid) (handle : Handle) : Prop :=
  ∃ process, machine.processes pid = some process ∧ process.Acquires handle

/-- How a process goes on: it clears what was found with a lock only if it did so before,
or has just taken the lock. -/
structure Advances (machine after : Machine) (event : Event) (pid : Pid) (process : Process) :
    Prop where
  tidy : process.Tidy
  acquires : ∀ handle, process.Acquires handle → machine.Acquires pid handle ∨
    machine.Takes pid handle ∧ (∃ listing, event = .perform pid listing) ∧
      ∀ host name, after.entry host name = machine.entry host name

theorem Advances.of_todo
    (htidy : Tidy process.selected (process.held.map Handle.host) process.todo) :
    Advances machine after event pid process := by
  refine ⟨.of_todo htidy, ?_⟩
  rintro handle ⟨op, rest, htodo, hop⟩
  rw [htodo] at htidy
  exact absurd hop htidy.not_acquires

/-- A process goes on with what it found. -/
theorem Advances.of_front {handle : Handle} {front rest : List Op}
    (hprocess : machine.Acquires pid handle) (htodo : process.todo = front ++ rest)
    (hfront : ∀ op ∈ front, Op.Acquires handle op)
    (hrest : Tidy process.selected (process.held.map Handle.host) rest) :
    Advances machine after event pid process := by
  refine ⟨⟨handle, front, rest, htodo, hfront, hrest⟩, ?_⟩
  rintro other ⟨op, last, hother, hop⟩
  cases front with
  | nil =>
    rw [htodo, List.nil_append] at hother
    rw [hother] at hrest
    exact absurd hop hrest.not_acquires
  | cons first front =>
    cases htodo.symm.trans hother
    rw [hop.eq (hfront op List.mem_cons_self)]
    exact .inl hprocess

theorem Advances.perform (htidy : process.Tidy) (hprocess : machine.processes pid = some process)
    (hperforms : machine.Performs pid process listing after) :
    ∃ process', after.processes = Function.update machine.processes pid (some process') ∧
      Advances machine after (.perform pid listing) pid process' := by
  cases hperforms with
  | ensured htodo | opened htodo | created htodo =>
    have hrest := htidy.cons htodo (by simp [Op.Acquires])
    exact ⟨_, rfl, .of_todo hrest⟩
  | @taken handle required rest htodo hfree =>
    -- From here on the process acquires: `clear_roots` of `try_lock_host` is the front of what it
    -- has to do.
    have hrest := (htidy.cons htodo (by simp [Op.Acquires])).afterLock
    refine ⟨_, rfl, ⟨handle, [.scan handle .acquire], _, rfl, ?_, ?_⟩, ?_⟩
    · intro op hmem
      exact .inl (List.mem_singleton.mp hmem)
    · rw [List.map_append]
      exact hrest
    · rintro other ⟨op, last, hother, hop⟩
      cases hother
      rw [hop.eq (.inl rfl)]
      exact .inr ⟨⟨process, required, rest, hprocess, htodo, hfree⟩, ⟨listing, rfl⟩,
        fun _ _ => rfl⟩
  | @refused handle required rest htodo =>
    have hrest := htidy.cons htodo (by simp [Op.Acquires])
    refine ⟨_, rfl, .of_todo ?_⟩
    cases required with
    | true => exact .releaseOps ..
    | false => exact hrest
  | @scanned handle purpose rest htodo =>
    cases purpose with
    | acquire =>
      obtain ⟨front, last, rfl, hfront, hlast⟩ := htidy.front htodo (.inl rfl)
      refine ⟨_, rfl, .of_front ⟨process, hprocess, _, _, htodo, .inl rfl⟩
        (List.append_assoc ..).symm ?_ hlast⟩
      -- what the scan found is removed next, so the front stays one of scans and removals
      intro op hmem
      rcases List.mem_append.mp hmem with hmem | hmem
      · obtain ⟨name, -, rfl⟩ := List.mem_map.mp hmem
        exact .inr ⟨name, rfl⟩
      · exact hfront op hmem
    | release =>
      have hrest := htidy.cons htodo (by simp [Op.Acquires])
      exact ⟨_, rfl, .of_todo (.map_remove hrest.1 hrest.2 listing)⟩
  | @removed handle name purpose rest htodo =>
    cases purpose with
    | acquire =>
      have hop : Op.Acquires handle (.remove handle name .acquire) := .inr ⟨name, rfl⟩
      obtain ⟨front, last, hsplit, hfront, hlast⟩ := htidy.front htodo hop
      exact ⟨_, rfl, .of_front ⟨process, hprocess, _, _, htodo, hop⟩ hsplit hfront hlast⟩
    | release => exact ⟨_, rfl, .of_todo (htidy.cons htodo (by simp [Op.Acquires])).2⟩
  | @unlocked handle rest htodo =>
    have hrest : FleetTools.Tidy process.selected
        ((process.held.map Handle.host).erase handle.host) rest :=
      htidy.cons htodo (by simp [Op.Acquires])
    exact ⟨_, rfl, .of_todo (hrest.mono (subperm_map_erase process.held handle))⟩
  | listed htodo =>
    have hrest := htidy.cons htodo (by simp [Op.Acquires])
    exact ⟨_, rfl, .of_todo (.map_ensure _ hrest)⟩

/-- What is left after an error is tidy. -/
theorem Process.Tidy.failed (htidy : process.Tidy) :
    FleetTools.Tidy process.selected (process.held.map Handle.host) process.failed := by
  rw [Process.failed]
  split
  case h_1 htodo => exact (htidy.cons htodo (by simp [Op.Acquires])).2
  case h_2 htodo => exact (htidy.cons htodo (by simp [Op.Acquires])).2.dropWhile _
  case h_5 htodo => exact htidy.cons htodo (by simp [Op.Acquires])
  case h_3 | h_4 | h_6 => exact .releaseOps ..

/-- After a step, a process is as it was or has gone on. -/
theorem Machine.advances_next
    (htidy : ∀ pid process, machine.processes pid = some process → process.Tidy)
    (hstep : Step machine event after) (hprocess : after.processes pid = some process) :
    machine.processes pid = some process ∨ Advances machine after event pid process := by
  have hupdate {owner : Pid} {process' : Process}
      (hafter : after.processes = Function.update machine.processes owner (some process'))
      (hadvances : Advances machine after event owner process') :
      machine.processes pid = some process ∨ Advances machine after event pid process := by
    rw [hafter, Function.update_apply] at hprocess
    split_ifs at hprocess with howner
    · cases hprocess
      exact .inr (howner ▸ hadvances)
    · exact .inl hprocess
  cases hstep.moves with
  | start => exact hupdate rfl (.of_todo (.lockOps _))
  | perform hlive hperforms =>
    obtain ⟨process', hafter, hadvances⟩ := Advances.perform (htidy _ _ hlive) hlive hperforms
    exact hupdate hafter hadvances
  | fail hlive => exact hupdate rfl (.of_todo (htidy _ _ hlive).failed)
  | create => exact .inl hprocess
  | drop hlive => exact hupdate rfl (.of_todo (.releaseOps ..))
  | @kill owner =>
    have hprocess : Function.update machine.processes owner none pid = some process := hprocess
    rw [Function.update_apply] at hprocess
    split_ifs at hprocess
    exact .inl hprocess

theorem Machine.tidy_of_reaches (hrun : Reaches Step .empty past machine) :
    ∀ pid process, machine.processes pid = some process → process.Tidy := by
  refine hrun.invariant
    (fun _ machine => ∀ pid process, machine.processes pid = some process → process.Tidy)
    (fun _ _ hprocess => by cases hprocess) ?_
  intro past machine event after _ htidy hstep pid process hprocess
  rcases Machine.advances_next htidy hstep hprocess with hsame | hadvances
  · exact htidy pid process hsame
  · exact hadvances.tidy

/-- A process at work holds the locks of its hosts. -/
theorem Machine.Works.holds (hworks : machine.Works pid host)
    (hrun : Reaches Step .empty past machine) : machine.Holds pid host := by
  obtain ⟨process, hprocess, hworking, hselected⟩ := hworks
  obtain ⟨rest, htodo⟩ : ∃ rest, process.todo = .work :: rest :=
    List.head?_eq_some_iff.mp hworking
  have htidy := (tidy_of_reaches hrun pid process hprocess).cons htodo (by simp [Op.Acquires])
  obtain ⟨handle, hmem, hhost⟩ := List.mem_map.mp (htidy.1 host hselected)
  exact ⟨process, handle, hprocess, hmem, hhost⟩

/-! ## What was found with a lock -/

/-- The process has done nothing but clear roots since it took the lock, and a state in
which it did is given. -/
def Since (past : List (Machine × Event)) (pid : Pid) (handle : Handle) (found : Machine) : Prop :=
  ∃ later listing earlier, past = later ++ (found, .perform pid listing) :: earlier ∧
    found.Takes pid handle ∧ ∀ entry ∈ later, entry.1.Acquires pid handle

theorem Machine.Acquires.holds {handle : Handle} (hacquires : machine.Acquires pid handle)
    (hsound : machine.Sound) : machine.Holds pid handle.host := by
  obtain ⟨process, hprocess, op, rest, htodo, hop⟩ := hacquires
  have hcovered := (hsound.processes pid process hprocess).covered
  rw [htodo] at hcovered
  rcases hop with rfl | ⟨name, rfl⟩
  · exact ⟨process, handle, hprocess, hcovered.1, rfl⟩
  · exact ⟨process, handle, hprocess, hcovered.1, rfl⟩

/-- While a process clears what it found with a lock, nobody is at work on the host. -/
theorem Machine.Acquires.not_works {handle : Handle} (hacquires : machine.Acquires pid handle)
    (hrun : Reaches Step .empty past machine) (other : Pid) :
    ¬ machine.Works other handle.host := by
  intro hworks
  have hsound := Machine.sound_of_reaches hrun
  obtain rfl : other = pid := hsound.eq_of_holds (hworks.holds hrun) (hacquires.holds hsound)
  obtain ⟨process, hprocess, op, rest, htodo, hop⟩ := hacquires
  obtain ⟨found, hfound, hworking, -⟩ := hworks
  cases hprocess.symm.trans hfound
  rw [htodo] at hworking
  cases hworking
  simp [Op.Acquires] at hop

/-- So no root is new. -/
theorem Machine.Acquires.rootLink {handle : Handle} (hacquires : machine.Acquires pid handle)
    (hrun : Reaches Step .empty past machine) (hstep : Step machine event after)
    (hlink : after.RootLink handle.host name) : machine.RootLink handle.host name := by
  obtain ⟨hroot, hlink⟩ := hlink
  rcases Machine.entry_next hstep handle.host name with
    hsame | ⟨hlock, -⟩ | ⟨-, -, other, hworks⟩ | ⟨hgone, -⟩
  · exact ⟨hroot, hsame ▸ hlink⟩
  · exact absurd hlock (Machine.ne_lockName_of_isRoot hroot)
  · exact absurd hworks (hacquires.not_works hrun other)
  · rw [hgone] at hlink
    cases hlink

/-- While a process clears what it found with a lock, every root was there before the
lock was taken. -/
theorem found_of_acquires (hrun : Reaches Step .empty past machine) {handle : Handle}
    (hacquires : machine.Acquires pid handle) :
    ∃ found, Since past pid handle found ∧
      ∀ name, machine.RootLink handle.host name → found.RootLink handle.host name := by
  induction hrun generalizing handle with
  | start =>
    obtain ⟨process, hprocess, -⟩ := hacquires
    cases hprocess
  | @next past machine after event hrun hstep ih =>
    obtain ⟨process, hprocess, hnext⟩ := hacquires
    have hbefore : machine.Acquires pid handle ∨ machine.Takes pid handle ∧
        (∃ listing, event = .perform pid listing) ∧
        ∀ host name, after.entry host name = machine.entry host name := by
      rcases Machine.advances_next (Machine.tidy_of_reaches hrun) hstep hprocess with
        hsame | hadvances
      · exact .inl ⟨process, hsame, hnext⟩
      · exact hadvances.acquires handle hnext
    rcases hbefore with hacquires | ⟨htakes, ⟨listing, rfl⟩, hsame⟩
    · obtain ⟨found, ⟨later, listing, earlier, rfl, htakes, hlater⟩, hroots⟩ := ih hacquires
      refine ⟨found, ⟨(machine, event) :: later, listing, earlier, rfl, htakes, ?_⟩, ?_⟩
      · exact List.forall_mem_cons.mpr ⟨hacquires, hlater⟩
      · exact fun name hlink => hroots name (hacquires.rootLink hrun hstep hlink)
    · refine ⟨machine, ⟨[], listing, past, rfl, htakes, fun _ hmem => by cases hmem⟩, ?_⟩
      rintro name ⟨hroot, hlink⟩
      exact ⟨hroot, hsame _ _ ▸ hlink⟩

/-- A process clears a root that it found with the lock: the root was there before it took
the lock, and it has done nothing but clear roots since. -/
def ClearsFound (past : List (Machine × Event)) (machine : Machine) (event : Event) (pid : Pid)
    (host : Host) (name : String) : Prop :=
  ∃ process handle rest listing, event = .perform pid listing ∧
    machine.processes pid = some process ∧ handle.host = host ∧
    process.todo = .remove handle name .acquire :: rest ∧
    ∃ found, Since past pid handle found ∧ found.RootLink host name

/-- A process clears a root on its way to release the lock: all that it does before it
unlocks is to remove more roots. -/
def ClearsReleasing (machine : Machine) (event : Event) (pid : Pid) (host : Host)
    (name : String) : Prop :=
  ∃ process handle rest listing, event = .perform pid listing ∧
    machine.processes pid = some process ∧ handle.host = host ∧
    process.todo = .remove handle name .release :: rest ∧ Unlocks handle rest

/-- In every interleaving, a host is locked by one live process at a time, its roots
go only when that process itself clears them, as what it found when it took the lock or
before it releases it, and its lock file stays. -/
theorem deployment_roots_safe {past : List (Machine × Event)}
    (hrun : Reaches Step .empty past machine) :
    (∀ first second host, machine.Holds first host → machine.Holds second host →
      first = second) ∧
    ∀ event after, Step machine event after →
      (∀ pid host name, machine.Holds pid host → machine.RootLink host name →
        ¬ after.RootLink host name →
        ClearsFound past machine event pid host name ∨
          ClearsReleasing machine event pid host name) ∧
      ∀ host inode, machine.entry host lockName = some (.file inode) →
        after.entry host lockName = some (.file inode) := by
  have hsound := Machine.sound_of_reaches hrun
  refine ⟨fun first second host => hsound.eq_of_holds, fun event after hstep => ⟨?_, ?_⟩⟩
  · rintro pid host name hholds ⟨hroot, hlink⟩ hgone
    -- An entry stays, or appears, or is removed by a process that clears the roots of the host.
    rcases Machine.entry_next hstep host name with
      hsame | ⟨-, hnone⟩ | ⟨-, hcreated, -⟩ | ⟨-, owner, purpose, hclears⟩
    · exact absurd ⟨hroot, hsame.trans hlink⟩ hgone
    · rw [hlink] at hnone
      cases hnone
    · exact absurd ⟨hroot, hcreated⟩ hgone
    -- that process holds the lock, so it is the one at hand
    · obtain rfl : owner = pid := hsound.eq_of_holds (hsound.holds_of_clears hclears).1 hholds
      obtain ⟨process, handle, rest, listing, hevent, hprocess, rfl, htodo⟩ := hclears
      cases purpose with
      | acquire =>
        obtain ⟨found, hsince, hroots⟩ :=
          found_of_acquires hrun ⟨process, hprocess, _, rest, htodo, .inr ⟨name, rfl⟩⟩
        exact .inl ⟨process, handle, rest, listing, hevent, hprocess, rfl, htodo, found, hsince,
          hroots name ⟨hroot, hlink⟩⟩
      | release =>
        have htidy := (Machine.tidy_of_reaches hrun owner process hprocess).cons htodo
          (by simp [Op.Acquires])
        exact .inr ⟨process, handle, rest, listing, hevent, hprocess, rfl, htodo, htidy.1⟩
  · intro host inode hfile
    exact hsound.lockFile_next hstep hfile

/-! ### Two deployments, the first of which is killed -/

/-- The process locks the host and creates a root. -/
def deployEvents : List Event :=
  [.start 1 ["alpha"], .perform 1 [], .perform 1 [], .perform 1 [], .perform 1 [],
    .perform 1 ["alpha"], .create 1 "alpha" "source"]

/-- It is killed, and another process takes the lock and finds the root. -/
def staleEvents : List Event :=
  deployEvents ++ [.kill 1, .start 2 ["alpha"], .perform 2 [], .perform 2 [], .perform 2 [],
    .perform 2 ["source"]]

/-- While a deployment runs, its root is there and safe. -/
theorem running_deployment_safe : ∃ past machine, Reaches Step .empty past machine ∧
    machine.Holds 1 "alpha" ∧ machine.RootLink "alpha" "source" ∧
    ∀ event after, Step machine event after →
      ∀ pid host name, machine.Holds pid host → machine.RootLink host name →
        ¬ after.RootLink host name →
        ClearsFound past machine event pid host name ∨
          ClearsReleasing machine event pid host name := by
  obtain ⟨past, machine, hrun, hprocess, hlink⟩ :
      ∃ past machine, Reaches Step .empty past machine ∧
        machine.processes 1 = some ⟨["alpha"], [⟨"alpha", 0⟩], [.work]⟩ ∧
        machine.entry "alpha" "source" = some .symlink :=
    Reaches.of_execute deployEvents (by decide +kernel)
  exact ⟨past, machine, hrun, ⟨_, ⟨"alpha", 0⟩, hprocess, List.mem_cons_self, rfl⟩,
    ⟨by decide, hlink⟩, fun event after hstep => ((deployment_roots_safe hrun).2 event after hstep).1⟩

/-- A root that a killed process left goes while the next process holds the lock, and
not through its release. -/
theorem stale_root_cleared_on_acquire : ∃ past machine event after,
    Reaches Step .empty past machine ∧ Step machine event after ∧ machine.Holds 2 "alpha" ∧
    machine.RootLink "alpha" "source" ∧ ¬ after.RootLink "alpha" "source" ∧
    ∀ pid, ¬ Clears machine event pid "alpha" "source" .release := by
  obtain ⟨past, machine, hrun, hprocess, hlink, hnext⟩ :
      ∃ past machine, Reaches Step .empty past machine ∧
        machine.processes 2 = some ⟨["alpha"], [⟨"alpha", 0⟩],
          [.remove ⟨"alpha", 0⟩ "source" .acquire, .listHosts, .work]⟩ ∧
        machine.entry "alpha" "source" = some .symlink ∧
        (machine.next (.perform 2 [])).any fun after => after.entry "alpha" "source" = none :=
    Reaches.of_execute staleEvents (by decide +kernel)
  obtain ⟨after, hstep, hgone⟩ : ∃ after, machine.next (.perform 2 []) = some after ∧
      after.entry "alpha" "source" = none := by
    cases hafter : machine.next (.perform 2 []) with
    | none => rw [hafter] at hnext; cases hnext
    | some after =>
      rw [hafter] at hnext
      exact ⟨after, rfl, of_decide_eq_true hnext⟩
  refine ⟨past, machine, .perform 2 [], after, hrun, hstep,
    ⟨_, ⟨"alpha", 0⟩, hprocess, List.mem_cons_self, rfl⟩, ⟨by decide, hlink⟩, ?_, ?_⟩
  · rintro ⟨-, hlinked⟩
    rw [hgone] at hlinked
    cases hlinked
  · rintro pid ⟨process, handle, rest, listing, hevent, hfound, -, htodo⟩
    cases hevent
    cases hprocess.symm.trans hfound
    cases htodo

end NixConfig.FleetTools
