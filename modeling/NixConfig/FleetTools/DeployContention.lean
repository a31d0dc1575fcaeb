/-
# Deployments of different hosts

A process that has locked its own hosts looks at every other host, and takes the
lock of each for a moment to clear what a killed process left. So a host can be
locked by a process that does not deploy it, and a deployment of that host that
tries the lock just then is refused, though nobody deploys there.

In every interleaving of deployments of different hosts, this is the only way to
be refused: the lock is in the hands of a process that cleans up.
-/

import NixConfig.FleetTools.DeployRoots

namespace NixConfig.FleetTools

open Data Semantics

variable {machine after : Machine} {event : Event} {pid : Pid}

/-! ## Locks that a process asks for -/

/-- The host of a call that leads to a lock, and whether the process has to get it. -/
def Op.asked? : Op → Option (Host × Bool)
  | .ensure host required => some (host, required)
  | .openLock host required => some (host, required)
  | .tryLock handle required => some (handle.host, required)
  | _ => none

/-- The locks that are still to be asked for. -/
def askedHosts (ops : List Op) : List (Host × Bool) := ops.filterMap Op.asked?

/-- The locks that a process has to get are those of its selected hosts. Each of them is
asked for once, while the process does not have it. -/
structure Process.Orderly (process : Process) : Prop where
  asked : ∀ host required, (host, required) ∈ askedHosts process.todo →
    (required = true ↔ host ∈ process.selected)
  once : (askedHosts process.todo).Pairwise fun first second => first.2 = true → first ≠ second
  free : ∀ host, (host, true) ∈ askedHosts process.todo →
    ∀ handle ∈ process.held, handle.host ≠ host

variable {process : Process} {rest : List Op} {changed : Machine} {listing : List String}
  {past : List (Machine × Event)}

theorem Process.Orderly.sublist (horderly : process.Orderly) {todo : List Op}
    (hsublist : (askedHosts todo).Sublist (askedHosts process.todo)) :
    Process.Orderly { process with todo := todo } :=
  ⟨fun host required hmem => horderly.asked host required (hsublist.subset hmem),
    horderly.once.sublist hsublist,
    fun host hmem => horderly.free host (hsublist.subset hmem)⟩

@[simp] theorem askedHosts_append (first second : List Op) :
    askedHosts (first ++ second) = askedHosts first ++ askedHosts second :=
  List.filterMap_append

@[simp] theorem askedHosts_map_remove (handle : Handle) (purpose : Purpose)
    (names : List String) :
    askedHosts (names.map fun name => .remove handle name purpose) = [] := by
  induction names with
  | nil => rfl
  | cons name names ih => exact ih

@[simp] theorem askedHosts_map_ensure (required : Bool) (hosts : List Host) :
    askedHosts (hosts.map fun host => .ensure host required) =
      hosts.map fun host => (host, required) := by
  induction hosts with
  | nil => rfl
  | cons host hosts ih => exact congrArg ((host, required) :: ·) ih

@[simp] theorem askedHosts_releaseOps (handles : List Handle) :
    askedHosts (releaseOps handles) = [] := by
  induction handles with
  | nil => rfl
  | cons handle handles ih => exact ih

@[simp] theorem askedHosts_afterLock (handle : Handle) (required : Bool) (rest : List Op) :
    askedHosts (afterLock handle required rest) = askedHosts rest := by
  cases required with
  | true => rfl
  | false => rfl

theorem askedHosts_lockOps (hosts : List Host) :
    askedHosts (lockOps hosts) =
      (hosts.dedup.insertionSort (· ≤ ·)).map fun host => (host, true) := by
  rw [lockOps, askedHosts_append, askedHosts_map_ensure]
  exact List.append_nil _

theorem orderly_lockOps (hosts : List Host) :
    Process.Orderly ⟨hosts, [], lockOps hosts⟩ := by
  have hperm : (hosts.dedup.insertionSort (· ≤ ·)).Perm hosts.dedup := List.perm_insertionSort ..
  refine ⟨fun host required hmem => ?_, ?_, fun _ _ handle hmem => ?_⟩
  · rw [askedHosts_lockOps, List.mem_map] at hmem
    obtain ⟨selected, hselected, heq⟩ := hmem
    cases heq
    exact iff_of_true rfl (List.mem_dedup.mp (hperm.mem_iff.mp hselected))
  · rw [askedHosts_lockOps, List.pairwise_map]
    have hnodup : (hosts.dedup.insertionSort (· ≤ ·)).Nodup :=
      hperm.nodup_iff.mpr (List.nodup_dedup _)
    exact hnodup.imp fun hne _ heq => hne (congrArg Prod.fst heq)
  · cases hmem

/-- Having listed the hosts, a process asks for those that it did not select. -/
theorem Process.Orderly.listHosts (horderly : process.Orderly)
    (htodo : process.todo = .listHosts :: rest) (listing : List Host) :
    Process.Orderly { process with
      todo := (listing.filter (· ∉ process.selected)).map (fun host => .ensure host false) ++
        rest } := by
  have hrest : askedHosts process.todo = askedHosts rest := by rw [htodo]; rfl
  have hasked : askedHosts ((listing.filter (· ∉ process.selected)).map
      (fun host => .ensure host false) ++ rest) =
      (listing.filter (· ∉ process.selected)).map (fun host => (host, false)) ++
        askedHosts process.todo := by
    rw [askedHosts_append, askedHosts_map_ensure, hrest]
  refine ⟨fun host required hmem => ?_, ?_, fun host hmem => ?_⟩
  · rw [hasked, List.mem_append, List.mem_map] at hmem
    rcases hmem with ⟨other, hother, heq⟩ | hmem
    · cases heq
      have hselected : host ∉ process.selected := by
        simpa using (List.mem_filter.mp hother).2
      exact iff_of_false Bool.false_ne_true hselected
    · exact horderly.asked host required hmem
  · rw [hasked, List.pairwise_append, List.pairwise_map]
    refine ⟨List.pairwise_of_forall fun _ _ hrequired => ?_, horderly.once, ?_⟩
    · cases hrequired
    · intro first hfirst second _ hrequired
      obtain ⟨host, -, rfl⟩ := List.mem_map.mp hfirst
      cases hrequired
  · rw [hasked, List.mem_append, List.mem_map] at hmem
    rcases hmem with ⟨other, -, heq⟩ | hmem
    · cases heq
    · exact horderly.free host hmem

/-- Whatever fails, no lock is added that the process has to get. -/
theorem askedHosts_failed (process : Process) :
    (askedHosts process.failed).Sublist (askedHosts process.todo) := by
  unfold Process.failed
  generalize process.todo = todo
  split
  · exact .refl _
  · exact ((List.dropWhile_sublist _).trans (List.sublist_cons_self _ _)).filterMap _
  · simp
  · simp
  · exact .refl _
  · simp

/-! ## Every lock has an owner -/

/-- Every lock that is taken is one that a live process holds, and processes go about
their locks in order. -/
structure Machine.Accounted (machine : Machine) : Prop where
  owners : ∀ inode owner, machine.locks inode = some owner →
    ∃ process, machine.processes owner = some process ∧
      ∃ handle ∈ process.held, handle.inode = inode
  orderly : ∀ pid process, machine.processes pid = some process → process.Orderly

theorem Machine.accounted_empty : Machine.empty.Accounted :=
  ⟨fun _ _ hlock => (by cases hlock), fun _ _ hprocess => (by cases hprocess)⟩

/-- A process goes on after a change to its own locks. -/
theorem Machine.Accounted.proceed (haccounted : machine.Accounted)
    (hprocesses : changed.processes = machine.processes)
    (hlocks : ∀ inode owner, changed.locks inode = some owner →
      owner ≠ pid ∧ machine.locks inode = some owner ∨
        owner = pid ∧ ∃ handle ∈ process.held, handle.inode = inode) (horderly : process.Orderly) :
    (changed.proceed pid process).Accounted := by
  refine ⟨fun inode owner hlock => ?_, fun other found hfound => ?_⟩
  · rcases hlocks inode owner hlock with ⟨hother, hlock⟩ | ⟨rfl, hhandle⟩
    · obtain ⟨found, hfound, hhandle⟩ := haccounted.owners inode owner hlock
      refine ⟨found, ?_, hhandle⟩
      rw [Machine.processes_proceed, if_neg hother, hprocesses]
      exact hfound
    · refine ⟨process, ?_, hhandle⟩
      rw [Machine.processes_proceed, if_pos rfl]
  · rw [Machine.processes_proceed] at hfound
    split at hfound
    · cases hfound
      exact horderly
    · rw [hprocesses] at hfound
      exact haccounted.orderly other found hfound

section Owner

variable (haccounted : machine.Accounted) (hprocess : machine.processes pid = some process)

include haccounted hprocess

/-- A lock is that of another process, or one that the process holds. -/
theorem Machine.Accounted.owner_cases {inode : Nat} {owner : Pid}
    (hlock : machine.locks inode = some owner) :
    owner ≠ pid ∧ machine.locks inode = some owner ∨
      owner = pid ∧ ∃ handle ∈ process.held, handle.inode = inode := by
  by_cases howner : owner = pid
  · obtain ⟨found, hfound, hhandle⟩ := haccounted.owners inode owner hlock
    rw [howner, hprocess] at hfound
    cases hfound
    exact .inr ⟨howner, hhandle⟩
  · exact .inl ⟨howner, hlock⟩

/-- A process goes on with the locks it has. -/
theorem Machine.Accounted.proceed_only {todo : List Op}
    (hprocesses : changed.processes = machine.processes) (hlocks : changed.locks = machine.locks)
    (horderly : Process.Orderly { process with todo := todo }) :
    (changed.proceed pid { process with todo := todo }).Accounted := by
  refine haccounted.proceed hprocesses (fun inode owner hlock => ?_) horderly
  rw [hlocks] at hlock
  exact haccounted.owner_cases hprocess hlock

/-- It goes on and asks for nothing new. -/
theorem Machine.Accounted.proceed_todo {todo : List Op}
    (hprocesses : changed.processes = machine.processes) (hlocks : changed.locks = machine.locks)
    (hsublist : (askedHosts todo).Sublist (askedHosts process.todo)) :
    (changed.proceed pid { process with todo := todo }).Accounted :=
  haccounted.proceed_only hprocess hprocesses hlocks
    ((haccounted.orderly pid process hprocess).sublist hsublist)

theorem Machine.Accounted.takeLock {handle : Handle} {required : Bool}
    (htodo : process.todo = .tryLock handle required :: rest) :
    ((machine.setLock handle.inode (some pid)).proceed pid
      { process with
        held := process.held ++ [handle]
        todo := afterLock handle required rest }).Accounted := by
  have horderly := haccounted.orderly pid process hprocess
  have hasked : askedHosts process.todo = (handle.host, required) :: askedHosts rest := by
    rw [htodo]
    rfl
  have honce := horderly.once
  rw [hasked, List.pairwise_cons] at honce
  have hrest : ∀ entry ∈ askedHosts rest, entry ∈ askedHosts process.todo := by
    intro entry hmem
    rw [hasked]
    exact List.mem_cons_of_mem _ hmem
  refine haccounted.proceed rfl (fun inode owner hlock => ?_) ⟨?_, ?_, ?_⟩
  · by_cases hinode : inode = handle.inode
    · rw [hinode, Machine.locks_setLock_self] at hlock
      exact .inr ⟨(Option.some.inj hlock).symm, handle, by simp, hinode.symm⟩
    · rw [Machine.locks_setLock_of_ne _ _ hinode] at hlock
      refine (haccounted.owner_cases hprocess hlock).imp_right fun ⟨howner, other, hother⟩ => ?_
      exact ⟨howner, other, List.mem_append_left _ hother.1, hother.2⟩
  · rw [askedHosts_afterLock]
    exact fun host needed hmem => horderly.asked host needed (hrest _ hmem)
  · rw [askedHosts_afterLock]
    exact honce.2
  · rw [askedHosts_afterLock]
    intro host hmem other hother
    rcases List.mem_append.mp hother with hother | hother
    · exact horderly.free host (hrest _ hmem) other hother
    · rw [List.mem_singleton.mp hother]
      rintro rfl
      -- The host is asked for again as a selected one, so it was selected this time too.
      have hselected := (horderly.asked _ _ (hrest _ hmem)).mp rfl
      have hrequired : required = true :=
        (horderly.asked _ _ (hasked ▸ List.mem_cons_self)).mpr hselected
      exact honce.1 _ hmem hrequired (by rw [hrequired])

theorem Machine.Accounted.releaseLock {handle : Handle}
    (htodo : process.todo = .unlock handle :: rest) :
    ((machine.setLock handle.inode none).proceed pid
      { process with held := process.held.erase handle, todo := rest }).Accounted := by
  have horderly := haccounted.orderly pid process hprocess
  have hrequired : askedHosts process.todo = askedHosts rest := by
    rw [htodo]
    rfl
  refine haccounted.proceed rfl (fun inode owner hlock => ?_) ⟨?_, ?_, ?_⟩
  · have hinode : inode ≠ handle.inode := by
      rintro rfl
      rw [Machine.locks_setLock_self] at hlock
      cases hlock
    rw [Machine.locks_setLock_of_ne _ _ hinode] at hlock
    refine (haccounted.owner_cases hprocess hlock).imp_right fun ⟨howner, other, hother, hsame⟩ => ?_
    have hne : other ≠ handle := fun heq => hinode (by rw [← hsame, heq])
    exact ⟨howner, other, (List.mem_erase_of_ne hne).mpr hother, hsame⟩
  · exact hrequired ▸ horderly.asked
  · exact hrequired ▸ horderly.once
  · intro host hmem other hother
    exact horderly.free host (hrequired.symm ▸ hmem) other (List.mem_of_mem_erase hother)

theorem Machine.Accounted.perform (hperforms : machine.Performs pid process listing after) :
    after.Accounted := by
  cases hperforms with
  | ensured htodo | opened htodo | created htodo | removed htodo =>
    refine haccounted.proceed_todo hprocess rfl rfl ?_
    rw [htodo]
    exact .refl _
  | taken htodo => exact haccounted.takeLock hprocess htodo
  | refused htodo =>
    refine haccounted.proceed_todo hprocess rfl rfl ?_
    split
    · rw [askedHosts_releaseOps]
      exact List.nil_sublist _
    · rw [htodo]
      exact (List.sublist_cons_self _ _).filterMap _
  | scanned htodo =>
    refine haccounted.proceed_todo hprocess rfl rfl ?_
    rw [htodo, askedHosts_append, askedHosts_map_remove]
    exact .refl _
  | unlocked htodo => exact haccounted.releaseLock hprocess htodo
  | listed htodo =>
    exact haccounted.proceed_only hprocess rfl rfl
      ((haccounted.orderly pid process hprocess).listHosts htodo listing)

end Owner

theorem Machine.Accounted.kill (haccounted : machine.Accounted) (pid : Pid) :
    Machine.Accounted { machine with
      locks := fun inode => if machine.locks inode = some pid then none else machine.locks inode
      processes := Function.update machine.processes pid none } := by
  refine ⟨fun inode owner hlock => ?_, fun other found hfound => ?_⟩
  · have hlock : (if machine.locks inode = some pid then none else machine.locks inode) =
        some owner := hlock
    split_ifs at hlock with hkept
    obtain ⟨process, hprocess, hhandle⟩ := haccounted.owners inode owner hlock
    have howner : owner ≠ pid := fun heq => hkept (heq ▸ hlock)
    exact ⟨process, (Function.update_of_ne howner ..).trans hprocess, hhandle⟩
  · have hfound : Function.update machine.processes pid none other = some found := hfound
    rw [Function.update_apply] at hfound
    split_ifs at hfound
    exact haccounted.orderly other found hfound

theorem Machine.Accounted.next (haccounted : machine.Accounted)
    (hstep : Step machine event after) : after.Accounted := by
  cases hstep.moves with
  | start hidle =>
    refine haccounted.proceed rfl (fun inode owner hlock => .inl ⟨?_, hlock⟩) (orderly_lockOps _)
    -- A process that has not started has no lock.
    rintro rfl
    obtain ⟨process, hprocess, -⟩ := haccounted.owners inode owner hlock
    rw [hidle] at hprocess
    cases hprocess
  | perform hlive hperforms => exact haccounted.perform hlive hperforms
  | fail hlive => exact haccounted.proceed_todo hlive rfl rfl (askedHosts_failed _)
  | create => exact ⟨haccounted.owners, haccounted.orderly⟩
  | drop hlive =>
    refine haccounted.proceed_todo hlive rfl rfl ?_
    rw [askedHosts_releaseOps]
    exact List.nil_sublist _
  | kill => exact haccounted.kill _

theorem Machine.accounted_of_reaches (hrun : Reaches Step .empty past machine) :
    machine.Accounted :=
  hrun.invariant (fun _ machine => machine.Accounted) Machine.accounted_empty
    fun _ haccounted hstep => haccounted.next hstep

/-! ## Who is in the way -/

/-- A process is about to take the lock of a host it deploys. -/
def Machine.Asks (machine : Machine) (pid : Pid) (host : Host) : Prop :=
  ∃ process handle rest, machine.processes pid = some process ∧
    process.todo = .tryLock handle true :: rest ∧ handle.host = host

/-- It would be told that another deployment is running. -/
def Machine.Refuses (machine : Machine) (pid : Pid) (host : Host) : Prop :=
  ∃ process handle rest owner, machine.processes pid = some process ∧
    process.todo = .tryLock handle true :: rest ∧ handle.host = host ∧
    machine.locks handle.inode = some owner

/-- A process holds the lock of a host that it does not deploy. -/
def Machine.Cleans (machine : Machine) (pid : Pid) (host : Host) : Prop :=
  ∃ process handle, machine.processes pid = some process ∧ handle ∈ process.held ∧
    handle.host = host ∧ host ∉ process.selected

/-- No two processes deploy a host in common. -/
def Machine.Disjoint (machine : Machine) : Prop :=
  ∀ first second process process', first ≠ second →
    machine.processes first = some process → machine.processes second = some process' →
    process.selected.Disjoint process'.selected

/-- A call that is refused ends with an error: all that is left is to release. -/
theorem Machine.Refuses.perform {host : Host} (hrefuses : machine.Refuses pid host)
    (listing : List String) : ∃ process after, machine.processes pid = some process ∧
      Step machine (.perform pid listing) after ∧
      after.processes pid = some { process with todo := releaseOps process.held } := by
  obtain ⟨process, handle, rest, owner, hprocess, htodo, -, hlock⟩ := hrefuses
  have hperform : machine.perform pid process listing =
      some (machine.proceed pid { process with todo := releaseOps process.held }) := by
    rw [Machine.perform, htodo]
    simp only [hlock, if_true]
  refine ⟨process, _, hprocess, Option.bind_eq_some_iff.mpr ⟨process, hprocess, hperform⟩, ?_⟩
  rw [Machine.processes_proceed, if_pos rfl]

/-- However deployments of different hosts interleave, fail and are killed, one that
asks for the lock of its host is told that another deployment is running exactly
if another process holds that lock for its cleanup. -/
theorem refuses_iff_cleans {past : List (Machine × Event)}
    (hrun : Reaches Step .empty past machine) (hdisjoint : machine.Disjoint) (host : Host)
    (hasks : machine.Asks pid host) :
    machine.Refuses pid host ↔ ∃ other, other ≠ pid ∧ machine.Cleans other host := by
  have hsound := Machine.sound_of_reaches hrun
  have haccounted := Machine.accounted_of_reaches hrun
  obtain ⟨process, handle, rest, hprocess, htodo, hhost⟩ := hasks
  have hrequired : (handle.host, true) ∈ askedHosts process.todo := by
    rw [htodo]
    exact List.mem_cons_self
  have horderly := haccounted.orderly pid process hprocess
  have hfile : machine.LockFile handle := by
    have hcovered := (hsound.processes pid process hprocess).covered
    rw [htodo] at hcovered
    exact hcovered.1
  constructor
  · rintro ⟨found, handle', rest', owner, hfound, htodo', -, hlock⟩
    cases hprocess.symm.trans hfound
    cases htodo.symm.trans htodo'
    obtain ⟨process', hprocess', other, hother, hinode⟩ :=
      haccounted.owners handle.inode owner hlock
    have hsame : other = handle :=
      hsound.files.unique other handle
        ((hsound.processes owner process' hprocess').opened other hother) hfile hinode
    rw [hsame] at hother
    -- A process asks for the lock of a host only while it does not have it.
    have howner : owner ≠ pid := by
      rintro rfl
      cases hprocess.symm.trans hprocess'
      exact horderly.free handle.host hrequired handle hother rfl
    refine ⟨owner, howner, process', handle, hprocess', hother, hhost, fun hselected => ?_⟩
    exact hdisjoint owner pid process' process howner hprocess' hprocess hselected
      (hhost ▸ (horderly.asked handle.host true hrequired).mp rfl)
  · rintro ⟨other, -, process', handle', hprocess', hheld, hhost', -⟩
    have hknows := hsound.processes other process' hprocess'
    have hsame : handle' = handle :=
      (hknows.opened handle' hheld).eq hfile (hhost'.trans hhost.symm)
    refine ⟨process, handle, rest, other, hprocess, htodo, hhost, ?_⟩
    rw [← hsame]
    exact hknows.owned handle' hheld

/-! ### Two deployments that meet -/

/-- Who an event is about. -/
def Event.mover : Event → Pid
  | .start pid _ | .perform pid _ | .fail pid | .create pid _ _ | .drop pid | .kill pid => pid

/-- An event leaves other processes alone. -/
theorem Machine.processes_next (hstep : Step machine event after) (hother : pid ≠ event.mover) :
    after.processes pid = machine.processes pid := by
  cases hstep.moves with
  | start | fail | drop | kill => exact Function.update_of_ne hother ..
  | create => rfl
  | perform _ hperforms => cases hperforms <;> exact Function.update_of_ne hother ..

/-- Two processes deploy different hosts, and there are no others. -/
theorem Machine.disjoint_of_two (hrun : Reaches Step .empty past machine)
    (hpids : ∀ entry ∈ past, entry.2.mover = 1 ∨ entry.2.mover = 2) {first second : List Host}
    (hfirst : (machine.processes 1).map Process.selected = some first)
    (hsecond : (machine.processes 2).map Process.selected = some second)
    (hselected : first.Disjoint second) : machine.Disjoint := by
  have hcases {pid : Pid} {process : Process} (hprocess : machine.processes pid = some process) :
      pid = 1 ∧ process.selected = first ∨ pid = 2 ∧ process.selected = second := by
    by_cases hpid : pid = 1 ∨ pid = 2
    · rcases hpid with rfl | rfl <;> simp_all
    · have hnone : machine.processes pid = none := by
        refine (hrun.frame Event.mover Machine.processes (fun entry hmem hsame => hpid ?_)
          Machine.processes_next).1
        exact hsame ▸ hpids entry hmem
      rw [hnone] at hprocess
      cases hprocess
  intro pid other process process' hne hprocess hprocess'
  rcases hcases hprocess with ⟨rfl, hhosts⟩ | ⟨rfl, hhosts⟩ <;>
    rcases hcases hprocess' with ⟨rfl, hhosts'⟩ | ⟨rfl, hhosts'⟩
  · exact absurd rfl hne
  · exact hhosts ▸ hhosts' ▸ hselected
  · exact hhosts ▸ hhosts' ▸ hselected.symm
  · exact absurd rfl hne

/-- Two deployments start, and the second opens the lock file of its host. -/
def meetingEvents : List Event :=
  [.start 1 ["alpha"], .start 2 ["beta"], .perform 2 [], .perform 2 []]

/-- The first locks its host, lists all hosts and takes the lock of the other one. -/
def cleanupEvents : List Event :=
  meetingEvents ++ [.perform 1 [], .perform 1 [], .perform 1 [], .perform 1 [],
    .perform 1 ["beta", "alpha"], .perform 1 [], .perform 1 [], .perform 1 []]

/-- A deployment that meets no cleanup is not refused. -/
theorem meeting_not_refused : ∃ past machine, Reaches Step .empty past machine ∧
    machine.Disjoint ∧ machine.Asks 2 "beta" ∧
    (machine.Refuses 2 "beta" ↔ ∃ other, other ≠ 2 ∧ machine.Cleans other "beta") ∧
    ¬ machine.Refuses 2 "beta" := by
  obtain ⟨past, machine, hrun, hpids, hother, hprocess, hlock⟩ :
      ∃ past machine, Reaches Step .empty past machine ∧
        (∀ entry ∈ past, entry.2.mover = 1 ∨ entry.2.mover = 2) ∧
        (machine.processes 1).map Process.selected = some ["alpha"] ∧
        machine.processes 2 = some ⟨["beta"], [],
          [.tryLock ⟨"beta", 0⟩ true, .listHosts, .work]⟩ ∧
        machine.locks 0 = none :=
    Reaches.of_execute meetingEvents (by decide +kernel)
  have hdisjoint : machine.Disjoint :=
    Machine.disjoint_of_two hrun hpids hother (by rw [hprocess]; rfl) (by simp)
  have hasks : machine.Asks 2 "beta" := ⟨_, _, _, hprocess, rfl, rfl⟩
  refine ⟨past, machine, hrun, hdisjoint, hasks, refuses_iff_cleans hrun hdisjoint "beta" hasks, ?_⟩
  rintro ⟨process, handle, rest, owner, hfound, htodo, -, howner⟩
  cases hprocess.symm.trans hfound
  cases htodo
  rw [hlock] at howner
  cases howner

/-- A deployment of one host is refused because of a deployment of another host. -/
theorem cleanup_refuses_deployment : ∃ past machine after, Reaches Step .empty past machine ∧
    machine.Disjoint ∧ machine.Refuses 2 "beta" ∧ Step machine (.perform 2 []) after ∧
    after.processes 2 = some ⟨["beta"], [], []⟩ := by
  obtain ⟨past, machine, hrun, hpids, hother, hprocess, hlock⟩ :
      ∃ past machine, Reaches Step .empty past machine ∧
        (∀ entry ∈ past, entry.2.mover = 1 ∨ entry.2.mover = 2) ∧
        (machine.processes 1).map Process.selected = some ["alpha"] ∧
        machine.processes 2 = some ⟨["beta"], [],
          [.tryLock ⟨"beta", 0⟩ true, .listHosts, .work]⟩ ∧
        machine.locks 0 = some 1 :=
    Reaches.of_execute cleanupEvents (by decide +kernel)
  have hrefuses : machine.Refuses 2 "beta" := ⟨_, _, _, 1, hprocess, rfl, rfl, hlock⟩
  obtain ⟨process, after, hfound, hstep, hafter⟩ := hrefuses.perform []
  cases hprocess.symm.trans hfound
  exact ⟨past, machine, after, hrun,
    Machine.disjoint_of_two hrun hpids hother (by rw [hprocess]; rfl) (by simp), hrefuses, hstep, hafter⟩

end NixConfig.FleetTools
