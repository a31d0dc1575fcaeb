/-
# Converting a book

A book is converted beside itself: into a temporary file first, which is
validated and then renamed to the name of the book with the suffix `.epub`.
Only then is the source removed. Watcher and hooks may work on one library at
the same time, and any of them may be killed at any point.
-/

import Mathlib.Data.String.Basic
import NixConfig.Semantics.Run

namespace NixConfig.EbookConverter

open Semantics

/-! ## Files -/

/-- A book as it was given, with symbolic links resolved. -/
structure Source where
  stem : String
  suffix : String
  deriving DecidableEq

inductive Path
  | book (stem suffix : String)
  /-- The temporary name of a call, which is random and so no other call's. -/
  | temporary (id : Nat)
  deriving DecidableEq

def Source.path (source : Source) : Path := .book source.stem source.suffix

/-- `source.with_suffix(".epub")` -/
def Source.destination (source : Source) : Path := .book source.stem ".epub"

/-- `suffix.lower() in SUPPORTED_SOURCE_SUFFIXES` -/
def isSupported (suffix : String) : Bool :=
  suffix.toList.map Char.toLower = ".azw3".toList || suffix.toList.map Char.toLower = ".mobi".toList

inductive Node (κ : Type)
  | file (content : κ)
  | symlink (dangling : Bool)
  | directory
  deriving DecidableEq

/-- `Path.exists`, which follows symbolic links. -/
def present {κ : Type} : Option (Node κ) → Bool
  | none => false
  | some (.symlink dangling) => !dangling
  | some _ => true

/-! ## Calls -/

/-- The next step of a call of `convert_path`. -/
inductive Phase
  /-- `safe_source_path` -/
  | checking
  /-- `source_lock` -/
  | locking
  /-- `destination.exists()` -/
  | looking
  /-- `destination.is_symlink()` -/
  | comparing
  /-- `validate_epub(destination)` -/
  | validating
  /-- `source.unlink()`, of a source that is redundant -/
  | removing
  /-- `source.stat()` -/
  | reading
  /-- `runner.convert` -/
  | converting
  /-- `validate_epub(temporary_epub)` -/
  | proving
  /-- `chmod` and `fsync` -/
  | syncing
  /-- `destination.exists()`, once more -/
  | confirming
  /-- `temporary_epub.replace(destination)` -/
  | replacing
  /-- `source.unlink()`, of a source that was converted -/
  | unlinking
  /-- `temporary_epub.unlink(missing_ok=True)` -/
  | cleaning
  /-- `os.close` of the lock -/
  | releasing
  | ended
  deriving DecidableEq

/-- The call holds the lock of its source. -/
def Phase.locked : Phase → Bool
  | .checking | .locking | .ended => false
  | _ => true

/-- A phase that relies on nothing that was found before. -/
def Phase.plain : Phase → Bool
  | .comparing | .validating | .reading | .converting | .proving | .cleaning | .releasing => true
  | _ => false

structure Call where
  source : Source
  phase : Phase
  deriving DecidableEq

structure Machine (κ : Type) where
  nodes : Path → Option (Node κ)
  locks : Source → Option Nat
  calls : Nat → Option Call

/-- What a step does besides going on. -/
inductive Effect (κ : Type)
  | keep
  | lock
  /-- The temporary file is written. -/
  | write (content : κ)
  | remove (path : Path)
  /-- The temporary file is renamed to the destination. -/
  | move

/-- A step of a call, and the phase after it. -/
structure Action (κ : Type) where
  effect : Effect κ
  phase : Phase

variable {κ : Type}

namespace Machine

/-- The library before any call. -/
def ofLibrary (books : String → String → Option (Node κ)) : Machine κ where
  nodes
    | .book stem suffix => books stem suffix
    | .temporary _ => none
  locks _ := none
  calls _ := none

/-- The next step of a call, with `valid` what `validate_epub` accepts and `written` what
the converter writes. -/
def act (valid : κ → Bool) (machine : Machine κ) (id : Nat) (call : Call) (written : κ) : Action κ :=
  let source := call.source
  match call.phase with
  | .checking =>
    match machine.nodes source.path with
    | some (.file _) => if isSupported source.suffix then ⟨.keep, .locking⟩ else ⟨.keep, .ended⟩
    | _ => ⟨.keep, .ended⟩
  | .locking =>
    match machine.locks source with
    | none => ⟨.lock, .looking⟩
    -- `ConversionBusy`
    | some _ => ⟨.keep, .ended⟩
  | .looking =>
    if present (machine.nodes source.destination) then ⟨.keep, .comparing⟩ else ⟨.keep, .reading⟩
  | .comparing =>
    match machine.nodes source.destination with
    | some (.symlink _) => ⟨.keep, .releasing⟩
    | _ => ⟨.keep, .validating⟩
  | .validating =>
    match machine.nodes source.destination with
    | some (.file content) => if valid content then ⟨.keep, .removing⟩ else ⟨.keep, .releasing⟩
    | _ => ⟨.keep, .releasing⟩
  | .removing =>
    if (machine.nodes source.path).isSome then ⟨.remove source.path, .releasing⟩
    else ⟨.keep, .releasing⟩
  | .reading =>
    if present (machine.nodes source.path) then ⟨.keep, .converting⟩ else ⟨.keep, .releasing⟩
  | .converting => ⟨.write written, .proving⟩
  | .proving =>
    match machine.nodes (.temporary id) with
    | some (.file content) => if valid content then ⟨.keep, .syncing⟩ else ⟨.keep, .cleaning⟩
    | _ => ⟨.keep, .cleaning⟩
  | .syncing => ⟨.keep, .confirming⟩
  | .confirming =>
    if present (machine.nodes source.destination) then ⟨.keep, .cleaning⟩ else ⟨.keep, .replacing⟩
  | .replacing =>
    if (machine.nodes (.temporary id)).isSome then ⟨.move, .unlinking⟩ else ⟨.keep, .cleaning⟩
  | .unlinking =>
    if (machine.nodes source.path).isSome then ⟨.remove source.path, .releasing⟩
    else ⟨.keep, .cleaning⟩
  | .cleaning => ⟨.remove (.temporary id), .releasing⟩
  | .releasing | .ended => ⟨.keep, .ended⟩

/-- The next step of a call raises an exception. A converter that fails may have written
something. -/
def fault (call : Call) (written : Option κ) : Action κ :=
  match call.phase with
  | .checking | .locking | .releasing | .ended => ⟨.keep, .ended⟩
  | .looking | .comparing | .validating | .removing | .reading | .cleaning => ⟨.keep, .releasing⟩
  | .converting =>
    match written with
    | some content => ⟨.write content, .cleaning⟩
    | none => ⟨.keep, .cleaning⟩
  | .proving | .syncing | .confirming | .replacing | .unlinking => ⟨.keep, .cleaning⟩

def setNode (machine : Machine κ) (path : Path) (node : Option (Node κ)) : Machine κ :=
  { machine with nodes := Function.update machine.nodes path node }

def apply (machine : Machine κ) (id : Nat) (source : Source) : Effect κ → Machine κ
  | .keep => machine
  | .lock => { machine with locks := Function.update machine.locks source (some id) }
  | .write content => machine.setNode (.temporary id) (some (.file content))
  | .remove path => machine.setNode path none
  | .move =>
    (machine.setNode source.destination (machine.nodes (.temporary id))).setNode
      (.temporary id) none

/-- A call goes on; when it ends, it gives up its lock. -/
def enter (machine : Machine κ) (id : Nat) (call : Call) : Machine κ :=
  { machine with
    calls := Function.update machine.calls id (some call)
    locks := fun source =>
      if call.phase = .ended ∧ machine.locks source = some id then none else machine.locks source }

end Machine

inductive Event (κ : Type)
  | start (id : Nat) (source : Source)
  | advance (id : Nat) (written : κ)
  | raise (id : Nat) (written : Option κ)
  | crash (id : Nat)

def Event.id : Event κ → Nat
  | .start id _ | .advance id _ | .raise id _ | .crash id => id

/-- What an event makes of the machine, if it can happen. -/
def Machine.next (valid : κ → Bool) (machine : Machine κ) : Event κ → Option (Machine κ)
  | .start id source =>
    match machine.calls id with
    | none => some (machine.enter id ⟨source, .checking⟩)
    | some _ => none
  | .advance id written =>
    (machine.calls id).map fun call =>
      let action := machine.act valid id call written
      (machine.apply id call.source action.effect).enter id ⟨call.source, action.phase⟩
  | .raise id written =>
    (machine.calls id).map fun call =>
      let action : Action κ := Machine.fault call written
      (machine.apply id call.source action.effect).enter id ⟨call.source, action.phase⟩
  | .crash id => (machine.calls id).map fun call => machine.enter id ⟨call.source, .ended⟩

def Transition (valid : κ → Bool) (machine : Machine κ) (event : Event κ) (after : Machine κ) :
    Prop :=
  machine.next valid event = some after

/-! ## What a step can do -/

/-- An EPUB that `validate_epub` accepts. -/
def HasEpub (valid : κ → Bool) (nodes : Path → Option (Node κ)) (path : Path) : Prop :=
  ∃ content, nodes path = some (.file content) ∧ valid content = true

/-- All the steps of a call: the phase it is taken in, what was found, and what it does. -/
inductive Moves (valid : κ → Bool) (machine : Machine κ) (id : Nat) (call : Call) : Action κ → Prop
  | ended : Moves valid machine id call ⟨.keep, .ended⟩
  | checked (hphase : call.phase = .checking) (hsupported : isSupported call.source.suffix = true) :
      Moves valid machine id call ⟨.keep, .locking⟩
  | locked (hphase : call.phase = .locking) (hfree : machine.locks call.source = none) :
      Moves valid machine id call ⟨.lock, .looking⟩
  | passed {phase : Phase} (hlocked : call.phase.locked = true)
      (hplain : phase.plain = true) : Moves valid machine id call ⟨.keep, phase⟩
  | validated (hphase : call.phase = .validating)
      (hepub : HasEpub valid machine.nodes call.source.destination) :
      Moves valid machine id call ⟨.keep, .removing⟩
  | removed (hphase : call.phase = .removing ∨ call.phase = .unlinking) :
      Moves valid machine id call ⟨.remove call.source.path, .releasing⟩
  | converted {phase : Phase} (content : κ) (hphase : call.phase = .converting)
      (hplain : phase.plain = true) : Moves valid machine id call ⟨.write content, phase⟩
  | proved (hphase : call.phase = .proving)
      (hepub : HasEpub valid machine.nodes (.temporary id)) :
      Moves valid machine id call ⟨.keep, .syncing⟩
  | synced (hphase : call.phase = .syncing) : Moves valid machine id call ⟨.keep, .confirming⟩
  | confirmed (hphase : call.phase = .confirming)
      (hfree : present (machine.nodes call.source.destination) = false) :
      Moves valid machine id call ⟨.keep, .replacing⟩
  | replaced (hphase : call.phase = .replacing) : Moves valid machine id call ⟨.move, .unlinking⟩
  | cleaned (hphase : call.phase = .cleaning) :
      Moves valid machine id call ⟨.remove (.temporary id), .releasing⟩

variable {valid : κ → Bool} {machine after : Machine κ} {call : Call} {id : Nat}

theorem moves_act (call : Call) (written : κ) :
    Moves valid machine id call (machine.act valid id call written) := by
  -- Whatever a phase finds, it ends the call, goes on, or does the one thing the phase is for.
  obtain ⟨source, phase⟩ := call
  cases phase with
  | checking =>
    simp only [Machine.act]
    split
    · split_ifs with hsupported
      · exact .checked rfl hsupported
      · exact .ended
    · exact .ended
  | locking =>
    simp only [Machine.act]
    split
    · rename_i hfree
      exact .locked rfl hfree
    · exact .ended
  | looking | comparing | reading =>
    simp only [Machine.act]
    split
    · exact .passed rfl rfl
    · exact .passed rfl rfl
  | validating =>
    simp only [Machine.act]
    split
    · rename_i content hcontent
      split_ifs with hvalid
      · exact .validated rfl ⟨content, hcontent, hvalid⟩
      · exact .passed rfl rfl
    · exact .passed rfl rfl
  | removing =>
    simp only [Machine.act]
    split
    · exact .removed (.inl rfl)
    · exact .passed rfl rfl
  | converting => exact .converted written rfl rfl
  | proving =>
    simp only [Machine.act]
    split
    · rename_i content hcontent
      split_ifs with hvalid
      · exact .proved rfl ⟨content, hcontent, hvalid⟩
      · exact .passed rfl rfl
    · exact .passed rfl rfl
  | syncing => exact .synced rfl
  | confirming =>
    simp only [Machine.act]
    split_ifs with hfree
    · exact .passed rfl rfl
    · exact .confirmed rfl (by simpa using hfree)
  | replacing =>
    simp only [Machine.act]
    split
    · exact .replaced rfl
    · exact .passed rfl rfl
  | unlinking =>
    simp only [Machine.act]
    split
    · exact .removed (.inr rfl)
    · exact .passed rfl rfl
  | cleaning => exact .cleaned rfl
  | releasing | ended => exact .ended

/-- A step that raises does no more than others, and takes no lock. -/
theorem moves_fault (call : Call) (written : Option κ) :
    Moves valid machine id call (Machine.fault call written) ∧
      (Machine.fault call written).effect ≠ .lock := by
  obtain ⟨source, phase⟩ := call
  cases phase with
  | checking | locking | releasing | ended => exact ⟨.ended, nofun⟩
  | converting =>
    cases written with
    | none => exact ⟨.passed rfl rfl, nofun⟩
    | some content => exact ⟨.converted content rfl rfl, nofun⟩
  | _ => exact ⟨.passed rfl rfl, nofun⟩

/-- A transition starts a call, or takes a step of one. Only a step that goes well takes a
lock. -/
theorem Transition.cases {event : Event κ} (hstep : Transition valid machine event after) :
    (∃ source, after = machine.enter event.id ⟨source, .checking⟩) ∨
    (∃ call action, machine.calls event.id = some call ∧ Moves valid machine event.id call action ∧
      (action.effect = .lock → ∃ written, event = .advance event.id written) ∧
      after = (machine.apply event.id call.source action.effect).enter event.id
        ⟨call.source, action.phase⟩) := by
  cases event with
  | start id source =>
    rw [Transition, Machine.next] at hstep
    split at hstep
    · exact .inl ⟨source, (Option.some.inj hstep).symm⟩
    · cases hstep
  | advance id written =>
    obtain ⟨call, hcall, rfl⟩ := Option.map_eq_some_iff.mp hstep
    exact .inr ⟨call, _, hcall, moves_act call written, fun _ => ⟨written, rfl⟩, rfl⟩
  | raise id written =>
    obtain ⟨call, hcall, rfl⟩ := Option.map_eq_some_iff.mp hstep
    exact .inr ⟨call, _, hcall, (moves_fault call written).1,
      fun heffect => absurd heffect (@moves_fault _ valid machine id call written).2, rfl⟩
  | crash id =>
    obtain ⟨call, hcall, rfl⟩ := Option.map_eq_some_iff.mp hstep
    exact .inr ⟨call, ⟨.keep, .ended⟩, hcall, .ended, nofun, rfl⟩

/-! ## Files and calls after a step -/

/-- The call that takes a step, or another call that is as it was. -/
theorem Machine.call_of_enter {changed : Machine κ} {entered : Call}
    (hcalls : changed.calls = machine.calls) {other : Nat}
    (hcall : (changed.enter id entered).calls other = some call) :
    (other = id ∧ call = entered) ∨ other ≠ id ∧ machine.calls other = some call := by
  change Function.update changed.calls id (some entered) other = some call at hcall
  by_cases hsame : other = id
  · rw [hsame, Function.update_self] at hcall
    exact .inl ⟨hsame, (Option.some.inj hcall).symm⟩
  · rw [Function.update_of_ne hsame, hcalls] at hcall
    exact .inr ⟨hsame, hcall⟩

theorem Machine.calls_apply (machine : Machine κ) (id : Nat) (source : Source)
    (effect : Effect κ) : (machine.apply id source effect).calls = machine.calls := by
  cases effect with
  | keep | lock | write | remove | move => rfl

theorem Machine.nodes_setNode_self (machine : Machine κ) (path : Path) (node : Option (Node κ)) :
    (machine.setNode path node).nodes path = node :=
  Function.update_self ..

theorem Machine.nodes_setNode_of_ne {path other : Path} {node : Option (Node κ)}
    (hne : path ≠ other) : (machine.setNode other node).nodes path = machine.nodes path :=
  Function.update_of_ne hne ..

theorem hasEpub_setNode_of_ne {path other : Path} {node : Option (Node κ)} (hne : path ≠ other)
    (hepub : HasEpub valid machine.nodes path) :
    HasEpub valid (machine.setNode other node).nodes path := by
  obtain ⟨content, hcontent, hvalid⟩ := hepub
  exact ⟨content, (Machine.nodes_setNode_of_ne hne).trans hcontent, hvalid⟩

end NixConfig.EbookConverter
