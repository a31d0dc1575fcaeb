/-
# Books that stay

A source is removed only while a validated EPUB is beside it, however the
conversions of a library interleave.

The lock that keeps them apart belongs to the source, though. Sources that
differ only in their suffix have one destination between them, and a rename
replaces what is there: that the destination was free when it was last looked
at says nothing about the moment of the rename. One at a time, they are safe.
-/

import NixConfig.EbookConverter.Conversion

namespace NixConfig.EbookConverter

open Semantics

variable {κ : Type} {valid : κ → Bool} {machine after : Machine κ} {call : Call} {id : Nat}
  {source : Source} {action : Action κ} {event : Event κ}

/-! ## Validated books stay -/

/-- What a call relies on: the EPUB that it has validated is still there. -/
def Ready (valid : κ → Bool) (nodes : Path → Option (Node κ)) (id : Nat) (call : Call) : Prop :=
  match call.phase with
  | .removing | .unlinking => HasEpub valid nodes call.source.destination
  | .syncing | .confirming | .replacing => HasEpub valid nodes (.temporary id)
  | _ => True

/-- What holds of a call at all times. -/
structure Call.Sound (valid : κ → Bool) (nodes : Path → Option (Node κ)) (id : Nat) (call : Call) :
    Prop where
  supported : call.phase = .checking ∨ call.phase = .ended ∨ isSupported call.source.suffix = true
  ready : Ready valid nodes id call

def Machine.Safe (valid : κ → Bool) (machine : Machine κ) : Prop :=
  ∀ id call, machine.calls id = some call → call.Sound valid machine.nodes id

/-- What a step of a call leaves to the others. -/
structure Kept (valid : κ → Bool) (id : Nat) (machine changed : Machine κ) : Prop where
  books : ∀ stem, HasEpub valid machine.nodes (.book stem ".epub") →
    HasEpub valid changed.nodes (.book stem ".epub")
  temporaries : ∀ other, other ≠ id → HasEpub valid machine.nodes (.temporary other) →
    HasEpub valid changed.nodes (.temporary other)

variable {other : Nat} {nodes : Path → Option (Node κ)} {phase : Phase} {held : Source}

theorem Kept.ready {changed : Machine κ} (hkept : Kept valid id machine changed) (hne : other ≠ id)
    (hready : Ready valid machine.nodes other call) :
    Ready valid changed.nodes other call := by
  obtain ⟨source, phase⟩ := call
  cases phase with
  | removing | unlinking => exact hkept.books _ hready
  | syncing | confirming | replacing => exact hkept.temporaries other hne hready
  | _ => trivial

theorem ne_epub_of_isSupported (hsupported : isSupported source.suffix = true) :
    source.suffix ≠ ".epub" := by
  intro hsuffix
  rw [hsuffix] at hsupported
  exact absurd hsupported (by decide)

/-- Only the call's own temporary file changes. -/
theorem Kept.setNode_temporary {node : Option (Node κ)} :
    Kept valid id machine (machine.setNode (.temporary id) node) where
  books _ hepub := hasEpub_setNode_of_ne nofun hepub
  temporaries _ hne hepub := hasEpub_setNode_of_ne (fun heq => hne (Path.temporary.inj heq)) hepub

/-- A source is no EPUB. -/
theorem Kept.remove_source (hsupported : isSupported source.suffix = true) :
    Kept valid id machine (machine.setNode source.path none) where
  books _ hepub := hasEpub_setNode_of_ne
    (fun heq => ne_epub_of_isSupported hsupported (Path.book.inj heq).2.symm) hepub
  temporaries _ _ hepub := hasEpub_setNode_of_ne nofun hepub

/-- After the rename the EPUB is at the destination. -/
theorem hasEpub_move (hepub : HasEpub valid machine.nodes (.temporary id)) :
    HasEpub valid (machine.apply id source .move).nodes source.destination := by
  refine hasEpub_setNode_of_ne nofun ?_
  obtain ⟨content, hcontent, hvalid⟩ := hepub
  exact ⟨content, (Machine.nodes_setNode_self ..).trans hcontent, hvalid⟩

theorem Kept.move (hepub : HasEpub valid machine.nodes (.temporary id)) :
    Kept valid id machine (machine.apply id source .move) where
  books stem hbook := by
    by_cases hsame : Path.book stem ".epub" = source.destination
    · rw [hsame]
      exact hasEpub_move hepub
    · exact hasEpub_setNode_of_ne nofun (hasEpub_setNode_of_ne hsame hbook)
  temporaries _ hne hother :=
    hasEpub_setNode_of_ne (fun heq => hne (Path.temporary.inj heq))
      (hasEpub_setNode_of_ne nofun hother)

/-- What the call relies on, in the phase it is in. -/
theorem Call.Sound.ready_of_eq (hsound : call.Sound valid nodes id) (hphase : call.phase = phase) :
    Ready valid nodes id ⟨call.source, phase⟩ := by
  subst hphase
  exact hsound.ready

/-- A call that goes on has a supported source. -/
theorem Moves.supported (hmoves : Moves valid machine id call action)
    (hsound : call.Sound valid machine.nodes id) :
    action.phase = .ended ∨ isSupported call.source.suffix = true := by
  cases hmoves with
  | ended => exact .inl rfl
  | checked hphase hsupported => exact .inr hsupported
  | passed hlocked =>
    rcases hsound.supported with hphase | hphase | hsupported
    · simp [hphase, Phase.locked] at hlocked
    · simp [hphase, Phase.locked] at hlocked
    · exact .inr hsupported
  | removed hphase =>
    rcases hphase with hphase | hphase
    · exact .inr (by simpa [hphase] using hsound.supported)
    · exact .inr (by simpa [hphase] using hsound.supported)
  | locked hphase | validated hphase | converted content hphase | proved hphase | synced hphase
  | confirmed hphase | replaced hphase | cleaned hphase =>
    exact .inr (by simpa [hphase] using hsound.supported)

theorem Moves.kept (hmoves : Moves valid machine id call action)
    (hsound : call.Sound valid machine.nodes id) :
    Kept valid id machine (machine.apply id call.source action.effect) := by
  have hsupported := hmoves.supported hsound
  cases hmoves with
  | removed => exact .remove_source (hsupported.resolve_left nofun)
  | converted | cleaned => exact .setNode_temporary
  | replaced hphase => exact .move (hsound.ready_of_eq hphase)
  | _ => exact ⟨fun _ hepub => hepub, fun _ _ hepub => hepub⟩

/-- What a step does to a book: a source goes, or a destination is renamed over. -/
theorem Moves.nodes_book (hmoves : Moves valid machine id call action) (stem suffix : String) :
    (machine.apply id call.source action.effect).nodes (.book stem suffix) =
        machine.nodes (.book stem suffix) ∨
      .book stem suffix = call.source.path ∧ action.phase = .releasing ∧
        (call.phase = .removing ∨ call.phase = .unlinking) ∧
        (machine.apply id call.source action.effect).nodes (.book stem suffix) = none ∨
      .book stem suffix = call.source.destination ∧ call.phase = .replacing := by
  have htemporary : Path.book stem suffix ≠ .temporary id := nofun
  cases hmoves with
  | converted | cleaned => exact .inl (Machine.nodes_setNode_of_ne htemporary)
  | removed hphase =>
    by_cases hsame : Path.book stem suffix = call.source.path
    · refine .inr (.inl ⟨hsame, rfl, hphase, ?_⟩)
      rw [hsame]
      exact Machine.nodes_setNode_self ..
    · exact .inl (Machine.nodes_setNode_of_ne hsame)
  | replaced hphase =>
    by_cases hsame : Path.book stem suffix = call.source.destination
    · exact .inr (.inr ⟨hsame, hphase⟩)
    · exact .inl ((Machine.nodes_setNode_of_ne htemporary).trans
        (Machine.nodes_setNode_of_ne hsame))
  | _ => exact .inl rfl

theorem ready_of_plain (hplain : phase.plain = true) : Ready valid nodes id ⟨source, phase⟩ := by
  cases phase with
  | removing | unlinking | syncing | confirming | replacing => cases hplain
  | _ => trivial

theorem Moves.ready (hmoves : Moves valid machine id call action)
    (hsound : call.Sound valid machine.nodes id) :
    Ready valid (machine.apply id call.source action.effect).nodes id
      ⟨call.source, action.phase⟩ := by
  cases hmoves with
  | validated hphase hepub | proved hphase hepub => exact hepub
  | synced hphase =>
    have hepub : HasEpub valid machine.nodes (.temporary id) := hsound.ready_of_eq hphase
    exact hepub
  | confirmed hphase =>
    have hepub : HasEpub valid machine.nodes (.temporary id) := hsound.ready_of_eq hphase
    exact hepub
  | replaced hphase => exact hasEpub_move (hsound.ready_of_eq hphase)
  | passed hlocked hplain => exact ready_of_plain hplain
  | converted content hphase hplain => exact ready_of_plain hplain
  | _ => trivial

theorem Machine.Safe.step (hsafe : machine.Safe valid)
    (hstep : Transition valid machine event after) : after.Safe valid := by
  rcases hstep.cases with ⟨source, rfl⟩ | ⟨call, action, hcall, hmoves, -, rfl⟩
  · intro other call hother
    rcases Machine.call_of_enter rfl hother with ⟨-, rfl⟩ | ⟨-, hbefore⟩
    · exact ⟨.inl rfl, trivial⟩
    · exact hsafe other call hbefore
  · intro other call' hother
    have hsound := hsafe _ call hcall
    rcases Machine.call_of_enter (machine.calls_apply ..) hother with ⟨rfl, rfl⟩ | ⟨hne, hbefore⟩
    · exact ⟨.inr (hmoves.supported hsound), hmoves.ready hsound⟩
    · have hbefore := hsafe other call' hbefore
      exact ⟨hbefore.supported, (hmoves.kept hsound).ready hne hbefore.ready⟩

/-- A source goes only while a validated EPUB is at its destination. -/
theorem Machine.Safe.source_kept (hsafe : machine.Safe valid)
    (hstep : Transition valid machine event after) (hsupported : isSupported source.suffix = true) :
    after.nodes source.path = machine.nodes source.path ∨
      after.nodes source.path = none ∧ HasEpub valid machine.nodes source.destination ∧
        HasEpub valid after.nodes source.destination := by
  rcases hstep.cases with ⟨-, rfl⟩ | ⟨call, action, hcall, hmoves, -, rfl⟩
  · exact .inl rfl
  · have hsound := hsafe _ call hcall
    rcases hmoves.nodes_book source.stem source.suffix with
      hkept | ⟨hsame, -, hphase, hgone⟩ | ⟨hsame, -⟩
    · exact .inl hkept
    · have hepub : HasEpub valid machine.nodes source.destination := by
        rw [Source.destination, (Path.book.inj hsame).1]
        rcases hphase with hphase | hphase
        · exact hsound.ready_of_eq hphase
        · exact hsound.ready_of_eq hphase
      exact .inr ⟨hgone, hepub, (hmoves.kept hsound).books _ hepub⟩
    · exact absurd (Path.book.inj hsame).2 (ne_epub_of_isSupported hsupported)

/-! ## One conversion for a destination -/

/-- No lock is taken while a call of another source with the same destination holds its
own. -/
def Uncontended (machine : Machine κ) : Event κ → Prop
  | .advance id _ => ∀ call, machine.calls id = some call → call.phase = .locking →
    ∀ other call', machine.calls other = some call' → call'.phase.locked = true →
      call'.source.destination = call.source.destination → call'.source = call.source
  | _ => True

/-- The locked calls of a machine in which no destination was contended. -/
structure Machine.Exclusive (machine : Machine κ) : Prop where
  held : ∀ id call, machine.calls id = some call → call.phase.locked = true →
    machine.locks call.source = some id
  alone : ∀ first second call call', machine.calls first = some call →
    machine.calls second = some call' → call.phase.locked = true → call'.phase.locked = true →
    call.source.destination = call'.source.destination → first = second
  clear : ∀ id call, machine.calls id = some call → call.phase = .replacing →
    present (machine.nodes call.source.destination) = false

/-- Phases that hold a lock are entered with it, or from each other. -/
theorem Moves.locked_of_locked (hmoves : Moves valid machine id call action)
    (hlocked : action.phase.locked = true) :
    call.phase.locked = true ∧ action.effect ≠ .lock ∨
      call.phase = .locking ∧ action.effect = .lock ∧ machine.locks call.source = none := by
  cases hmoves with
  | ended | checked => cases hlocked
  | locked hphase hfree => exact .inr ⟨hphase, rfl, hfree⟩
  | passed hbefore => exact .inl ⟨hbefore, nofun⟩
  | removed hphase =>
    rcases hphase with hphase | hphase
    · exact .inl ⟨by rw [hphase]; rfl, nofun⟩
    · exact .inl ⟨by rw [hphase]; rfl, nofun⟩
  | validated hphase | converted content hphase | proved hphase | synced hphase | confirmed hphase
  | replaced hphase | cleaned hphase => exact .inl ⟨by rw [hphase]; rfl, nofun⟩

/-- The destination was free when it was last looked at. -/
theorem Moves.absent_of_replacing (hmoves : Moves valid machine id call action)
    (hphase : action.phase = .replacing) :
    present ((machine.apply id call.source action.effect).nodes call.source.destination) =
      false := by
  cases hmoves with
  | confirmed _ hfree => exact hfree
  | passed _ hplain | converted _ _ hplain =>
    cases hphase
    cases hplain
  | _ => cases hphase

/-- Locks stay with their owners: a step takes only a free one. -/
theorem Moves.lock_kept (hmoves : Moves valid machine id call action)
    (hlock : machine.locks held = some other) :
    (machine.apply id call.source action.effect).locks held = some other := by
  cases hmoves with
  | locked hphase hfree =>
    have hne : held ≠ call.source := by
      rintro rfl
      exact nomatch hfree.symm.trans hlock
    exact (Function.update_of_ne hne ..).trans hlock
  | _ => exact hlock

/-- A call that goes on, or that another owns, keeps its lock. -/
theorem Machine.locks_enter {entered : Call} (hkeep : other ≠ id ∨ entered.phase ≠ .ended)
    (hlock : machine.locks held = some other) :
    (machine.enter id entered).locks held = some other := by
  refine (if_neg fun hgone => ?_).trans hlock
  rcases hkeep with hne | hphase
  · exact hne (Option.some.inj (hlock.symm.trans hgone.2))
  · exact hphase hgone.1

theorem Machine.Exclusive.move (hexclusive : machine.Exclusive)
    (hcall : machine.calls id = some call) (hmoves : Moves valid machine id call action)
    (huncontended : action.effect = .lock → ∀ other call', machine.calls other = some call' →
      call'.phase.locked = true → call'.source.destination = call.source.destination →
      call'.source = call.source) :
    ((machine.apply id call.source action.effect).enter id
      ⟨call.source, action.phase⟩).Exclusive := by
  -- No other call holds a lock for the destination of the one that takes the step.
  have halone : ∀ other call', other ≠ id → machine.calls other = some call' →
      action.phase.locked = true → call'.phase.locked = true →
      call'.source.destination ≠ call.source.destination := by
    intro other call' hne hcall' hlocked hlocked' hsame
    rcases hmoves.locked_of_locked hlocked with ⟨hbefore, -⟩ | ⟨-, hlock, hfree⟩
    · exact hne (hexclusive.alone other id call' call hcall' hcall hlocked' hbefore hsame)
    · have hheld := hexclusive.held other call' hcall' hlocked'
      rw [huncontended hlock other call' hcall' hlocked' hsame, hfree] at hheld
      cases hheld
  constructor
  · intro other call' hcall' hlocked'
    rcases Machine.call_of_enter (machine.calls_apply ..) hcall' with ⟨rfl, rfl⟩ | ⟨hne, hbefore⟩
    · have hgoes : action.phase ≠ .ended := by
        intro hended
        rw [hended] at hlocked'
        cases hlocked'
      refine Machine.locks_enter (.inr hgoes) ?_
      rcases hmoves.locked_of_locked hlocked' with ⟨hlocked, -⟩ | ⟨-, hlock, -⟩
      · exact hmoves.lock_kept (hexclusive.held _ call hcall hlocked)
      · rw [hlock]
        exact Function.update_self ..
    · exact Machine.locks_enter (.inl hne)
        (hmoves.lock_kept (hexclusive.held other call' hbefore hlocked'))
  · intro first second call₁ call₂ hfirst hsecond hlocked₁ hlocked₂ hsame
    rcases Machine.call_of_enter (machine.calls_apply ..) hfirst with ⟨rfl, rfl⟩ | ⟨hne₁, hbefore₁⟩
    · rcases Machine.call_of_enter (machine.calls_apply ..) hsecond with
        ⟨rfl, -⟩ | ⟨hne₂, hbefore₂⟩
      · rfl
      · exact absurd hsame.symm (halone second call₂ hne₂ hbefore₂ hlocked₁ hlocked₂)
    · rcases Machine.call_of_enter (machine.calls_apply ..) hsecond with
        ⟨rfl, rfl⟩ | ⟨hne₂, hbefore₂⟩
      · exact absurd hsame (halone first call₁ hne₁ hbefore₁ hlocked₂ hlocked₁)
      · exact hexclusive.alone first second call₁ call₂ hbefore₁ hbefore₂ hlocked₁ hlocked₂ hsame
  · intro other call' hcall' hphase'
    change present ((machine.apply id call.source action.effect).nodes _) = false
    rcases Machine.call_of_enter (machine.calls_apply ..) hcall' with ⟨rfl, rfl⟩ | ⟨hne, hbefore⟩
    · exact hmoves.absent_of_replacing hphase'
    · rcases hmoves.nodes_book call'.source.stem ".epub" with
        hkept | ⟨-, -, -, hgone⟩ | ⟨hsame, hphase⟩
      · exact (congrArg present hkept).trans (hexclusive.clear other call' hbefore hphase')
      · exact congrArg present hgone
      · exact absurd (hexclusive.alone other id call' call hbefore hcall (by rw [hphase']; rfl)
          (by rw [hphase]; rfl) hsame) hne

/-- A call that starts holds no lock. -/
theorem Machine.Exclusive.start (hexclusive : machine.Exclusive) :
    (machine.enter id ⟨source, .checking⟩).Exclusive := by
  have hbefore : ∀ other call, (machine.enter id ⟨source, .checking⟩).calls other = some call →
      call.phase.locked = true → machine.calls other = some call := by
    intro other call hcall hlocked
    rcases Machine.call_of_enter rfl hcall with ⟨-, rfl⟩ | ⟨-, hbefore⟩
    · cases hlocked
    · exact hbefore
  constructor
  · intro other call hcall hlocked
    exact Machine.locks_enter (.inr nofun)
      (hexclusive.held other call (hbefore other call hcall hlocked) hlocked)
  · intro first second call call' hfirst hsecond hlocked hlocked'
    exact hexclusive.alone first second call call' (hbefore first call hfirst hlocked)
      (hbefore second call' hsecond hlocked') hlocked hlocked'
  · intro other call hcall hphase
    exact hexclusive.clear other call (hbefore other call hcall (by rw [hphase]; rfl)) hphase

theorem Machine.Exclusive.step (hexclusive : machine.Exclusive)
    (huncontended : Uncontended machine event) (hstep : Transition valid machine event after) :
    after.Exclusive := by
  rcases hstep.cases with ⟨source, rfl⟩ | ⟨call, action, hcall, hmoves, hlock, rfl⟩
  · exact hexclusive.start
  · refine hexclusive.move hcall hmoves fun heffect => ?_
    obtain ⟨written, hevent⟩ := hlock heffect
    have hphase : call.phase = .locking := by
      cases hmoves with
      | locked hphase => exact hphase
      | _ => cases heffect
    rw [hevent] at huncontended
    exact huncontended call hcall hphase

/-- A book at a destination stays what it is. -/
theorem Machine.Exclusive.epub_kept (hexclusive : machine.Exclusive) (hsafe : machine.Safe valid)
    (hstep : Transition valid machine event after) {stem : String}
    (hpresent : present (machine.nodes (.book stem ".epub")) = true) :
    after.nodes (.book stem ".epub") = machine.nodes (.book stem ".epub") := by
  rcases hstep.cases with ⟨-, rfl⟩ | ⟨call, action, hcall, hmoves, -, rfl⟩
  · rfl
  · rcases hmoves.nodes_book stem ".epub" with hkept | ⟨hsame, hphase, -, -⟩ | ⟨hsame, hphase⟩
    · exact hkept
    · have hsupported := (hmoves.supported (hsafe _ call hcall)).resolve_left (by rw [hphase]; nofun)
      exact absurd (Path.book.inj hsame).2.symm (ne_epub_of_isSupported hsupported)
    · rw [hsame, hexclusive.clear _ call hcall hphase] at hpresent
      cases hpresent

/-- However the calls interleave and wherever they are killed, a source goes only while a
validated EPUB is at its destination; and as long as no lock is taken while another source
of the same destination is being converted, what is at a destination stays there. -/
theorem conversion_keeps_books (valid : κ → Bool) (books : String → String → Option (Node κ))
    {past : List (Machine κ × Event κ)} {machine after : Machine κ} {event : Event κ}
    (hrun : Reaches (Transition valid) (.ofLibrary books) past machine)
    (hstep : Transition valid machine event after) :
    (∀ source : Source, isSupported source.suffix = true →
      after.nodes source.path = machine.nodes source.path ∨
        after.nodes source.path = none ∧ HasEpub valid machine.nodes source.destination ∧
          HasEpub valid after.nodes source.destination) ∧
    ((∀ entry ∈ past, Uncontended entry.1 entry.2) →
      ∀ stem, present (machine.nodes (.book stem ".epub")) = true →
        after.nodes (.book stem ".epub") = machine.nodes (.book stem ".epub")) := by
  have hsafe : machine.Safe valid :=
    hrun.invariant (fun _ machine => machine.Safe valid) nofun fun _ hsafe hstep => hsafe.step hstep
  refine ⟨fun source hsupported => hsafe.source_kept hstep hsupported, ?_⟩
  intro huncontended stem hpresent
  have hexclusive : machine.Exclusive :=
    hrun.invariant_of_admitted Uncontended (fun _ machine => machine.Exclusive) huncontended
      ⟨nofun, nofun, nofun⟩ fun _ hexclusive hadmitted hstep => hexclusive.step hadmitted hstep
  exact hexclusive.epub_kept hsafe hstep hpresent

/-- Calls that hold their locks one after the other contend with no one. -/
theorem uncontended_of_turns {books : String → String → Option (Node κ)}
    {past : List (Machine κ × Event κ)} (ids : List Nat)
    (hrun : Reaches (Transition valid) (.ofLibrary books) past machine)
    (hids : ∀ entry ∈ past, entry.2.id ∈ ids)
    (hturns : ∀ entry ∈ past, ∀ other ∈ ids, other ≠ entry.2.id →
      (entry.1.calls other).all fun call => !call.phase.locked) :
    ∀ entry ∈ past, Uncontended entry.1 entry.2 := by
  have hnone (other : Nat) (hother : other ∉ ids) : ∀ entry ∈ past, entry.1.calls other = none := by
    refine (hrun.frame Event.id Machine.calls (fun entry hmem hsame => ?_) ?_).2
    · exact hother (hsame ▸ hids entry hmem)
    · intro machine event after hstep hne
      rcases hstep.cases with ⟨source, rfl⟩ | ⟨call, action, -, -, -, rfl⟩
      · exact Function.update_of_ne hne ..
      · exact (Function.update_of_ne hne ..).trans (congrFun (machine.calls_apply ..) other)
  rintro ⟨machine, event⟩ hentry
  cases event with
  | advance id written =>
    intro call hcall _ other call' hcall' hlocked _
    by_cases hne : other = id
    · rw [hne, hcall] at hcall'
      rw [Option.some.inj hcall']
    · by_cases hother : other ∈ ids
      · have hunlocked := hturns _ hentry other hother hne
        rw [hcall', Option.all_some, hlocked] at hunlocked
        cases hunlocked
      · cases (hnone other hother _ hentry).symm.trans hcall'
  | _ => trivial

/-! ## Runs -/

/-- `A.mobi` and `A.azw3`, and no EPUB. -/
def twoFormats (stem suffix : String) : Option (Node Nat) :=
  if stem = "A" ∧ suffix = ".mobi" then some (.file 1)
  else if stem = "A" ∧ suffix = ".azw3" then some (.file 2)
  else none

/-- A conversion, up to the rename. -/
def untilRename (id : Nat) (suffix : String) (written : Nat) : List (Event Nat) :=
  .start id ⟨"A", suffix⟩ :: List.replicate 8 (.advance id written)

/-- One format is converted and removed, and then the other one, up to its removal. -/
def inTurn : List (Event Nat) :=
  untilRename 7 ".mobi" 3 ++ List.replicate 3 (.advance 7 0) ++
    .start 8 ⟨"A", ".azw3"⟩ :: List.replicate 5 (.advance 8 0)

/-- Two formats of a book, converted one after the other: the second is removed for the EPUB
of the first. -/
theorem formats_in_turn_keep_books :
    ∃ past machine after, Reaches (Transition (· != 0)) (.ofLibrary twoFormats) past machine ∧
      Transition (· != 0) machine (.advance 8 0) after ∧
      machine.nodes (.book "A" ".mobi") = none ∧
      machine.nodes (.book "A" ".azw3") = some (.file 2) ∧
      after.nodes (.book "A" ".azw3") = none ∧
      (HasEpub (· != 0) machine.nodes (.book "A" ".epub") ∧
        after.nodes (.book "A" ".epub") = some (.file 3)) := by
  have hrun : ∃ past machine, Reaches (Transition (· != 0)) (.ofLibrary twoFormats) past machine ∧
      (∀ entry ∈ past, entry.2.id ∈ [7, 8]) ∧
      (∀ entry ∈ past, ∀ other ∈ [7, 8], other ≠ entry.2.id →
        (entry.1.calls other).all fun call => !call.phase.locked) ∧
      machine.calls 8 = some ⟨⟨"A", ".azw3"⟩, .removing⟩ ∧
      machine.nodes (.book "A" ".epub") = some (.file 3) ∧
      machine.nodes (.book "A" ".mobi") = none ∧
      machine.nodes (.book "A" ".azw3") = some (.file 2) :=
    Reaches.of_execute inTurn (by decide +kernel)
  obtain ⟨past, machine, hrun, hids, hturns, hcall, hepub, hmobi, hazw3⟩ := hrun
  have hstep : Transition (· != 0) machine (.advance 8 0)
      ((machine.setNode (.book "A" ".azw3") none).enter 8 ⟨⟨"A", ".azw3"⟩, .releasing⟩) := by
    simp [Transition, Machine.next, hcall, Machine.act, Source.path, hazw3, Machine.apply]
  have hgone : ((machine.setNode (.book "A" ".azw3") none).enter 8
      ⟨⟨"A", ".azw3"⟩, .releasing⟩).nodes (.book "A" ".azw3") = none :=
    machine.nodes_setNode_self (.book "A" ".azw3") none
  obtain ⟨hsources, hepubs⟩ := conversion_keeps_books _ twoFormats hrun hstep
  refine ⟨past, machine, _, hrun, hstep, hmobi, hazw3, hgone, ?_, ?_⟩
  · rcases hsources ⟨"A", ".azw3"⟩ (by decide) with hkept | ⟨-, hvalid, -⟩
    · cases hgone.symm.trans (hkept.trans hazw3)
    · exact hvalid
  · exact (hepubs (uncontended_of_turns [7, 8] hrun hids hturns) "A" (by rw [hepub]; rfl)).trans hepub

/-- Two formats of a book, converted at the same time: the second rename replaces the EPUB
of the first. -/
theorem second_format_replaces_epub :
    ∃ past machine, Reaches (Transition (· != 0)) (.ofLibrary twoFormats) past machine ∧
      (past.head?.map fun entry => entry.1.nodes (.book "A" ".epub")) = some (some (.file 3)) ∧
      machine.nodes (.book "A" ".epub") = some (.file 4) :=
  Reaches.of_execute
    (untilRename 7 ".mobi" 3 ++ untilRename 8 ".azw3" 4 ++ [.advance 7 0, .advance 8 0])
    (by decide +kernel)

end NixConfig.EbookConverter
